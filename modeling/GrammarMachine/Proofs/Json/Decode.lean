import GrammarMachine.Grammar.Json
import GrammarMachine.Proofs.Json.Text

/-!
Values of fixed shape are read from the JSON form that was made of them.
-/

namespace GrammarMachine.Json

variable {α β : Type} {write : α → Json} {read : Json → Option α}

/-- Everything that is written can be read from a text, and is read back as it was. -/
structure Faithful (write : α → Json) (read : Json → Option α) : Prop where
  readable : ∀ x, Readable (write x)
  reads : ∀ x, read (write x) = some x

section Values

theorem faithful_bool : Faithful bool bool? where
  readable := Readable.bool
  reads _ := rfl

theorem faithful_text : Faithful text text? where
  readable := Readable.text
  reads _ := rfl

theorem faithful_uint32 : Faithful uint32 uint32? where
  readable w := Readable.int w.toNat
  reads := uint32?_uint32

theorem faithful_int32 : Faithful int32 int32? where
  readable w := Readable.int w.toInt
  reads := int32?_int32

/-- An absent value is written as null, which nothing else is written as. -/
theorem Faithful.option (item : Faithful write read) (some : ∀ x, write x ≠ null) :
    Faithful (option write) (option? read) where
  readable
    | none => .null
    | .some x => item.readable x
  reads
    | none => rfl
    | .some x => by
      rw [Json.option, option?]
      · rw [item.reads]
        rfl
      · exact some x

theorem Faithful.list (item : Faithful write read) : Faithful (list write) (list? read) where
  readable xs := .array fun v mem => by
    obtain ⟨x, -, rfl⟩ := List.mem_map.1 mem
    exact item.readable x
  reads xs := by
    change (xs.map write).mapM read = some xs
    induction xs with
    | nil => rfl
    | cons x xs ih => rw [List.map_cons, List.mapM_cons, item.reads, ih]; rfl

theorem Faithful.array (item : Faithful write read) :
    Faithful (fun xs : Array α => Json.list write xs.toList) (array? read) where
  readable xs := item.list.readable xs.toList
  reads xs := by
    rw [array?, item.list.reads]
    rfl

end Values

section Records

variable {members : List (String × Json)} {names : List String} {name : String} {value : Json}

/-- Where keys differ, a member is found by its key. -/
theorem member?_of_mem (distinct : (members.map Prod.fst).Nodup) (mem : (name, value) ∈ members) :
    member? name (members.map fun (key, value) => (some key, value)) = some (some value) := by
  have found : (members.map fun (key, value) => (some key, value)).filter
      (fun m => m.1 == some name) = [(some name, value)] := by
    induction members with
    | nil => cases mem
    | cons m members ih =>
      rw [List.map_cons, List.nodup_cons] at distinct
      rcases List.mem_cons.1 mem with rfl | mem
      · rw [List.map_cons, List.filter_cons, if_pos (by simp)]
        refine congrArg ((some name, value) :: ·) (List.filter_eq_nil_iff.2 fun m inside same => ?_)
        obtain ⟨other, behind, rfl⟩ := List.mem_map.1 inside
        rw [beq_iff_eq, Option.some.injEq] at same
        have known : other.1 ∈ members.map Prod.fst := List.mem_map_of_mem behind
        exact distinct.1 (same ▸ known)
      · rw [List.map_cons, List.filter_cons_of_neg]
        · exact ih distinct.2 mem
        · rw [beq_iff_eq, Option.some.injEq]
          intro same
          have known : name ∈ members.map Prod.fst := List.mem_map_of_mem mem
          exact distinct.1 (same ▸ known)
  rw [member?, found]

/-- The fields of a record, asked for in the order of its members. -/
theorem fields?_record (named : members.map Prod.fst = names) (distinct : names.Nodup) :
    fields? names (record members) = some (members.map fun m => some m.2) := by
  subst named
  have each : ∀ some : List (String × Json), some ⊆ members →
      (some.map Prod.fst).mapM (fun name => member? name
        (members.map fun (key, value) => (Option.some key, value))) =
        .some (some.map fun m => .some m.2) := by
    intro some inside
    induction some with
    | nil => rfl
    | cons m some ih =>
      rw [List.cons_subset] at inside
      rw [List.map_cons, List.mapM_cons, member?_of_mem distinct inside.1, ih inside.2]
      rfl
  rw [record, fields?, if_pos (by simp)]
  exact each members (List.Subset.refl members)

@[simp]
theorem required?_some : required? read (some value) = read value := rfl

@[simp]
theorem optional?_some : optional? read (some value) = option? read value := rfl

/-- Reading a record goes on with the fields that were written. -/
theorem bind_fields? {rest : List (Option Json) → Option α} {x : α}
    (named : members.map Prod.fst = names) (distinct : names.Nodup)
    (reads : rest (members.map fun m => some m.2) = some x) :
    (fields? names (record members) >>= rest) = some x := by
  rw [fields?_record named distinct]
  exact reads

end Records

end GrammarMachine.Json
