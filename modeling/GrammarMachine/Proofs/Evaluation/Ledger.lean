import GrammarMachine.Parse.Evaluation
import GrammarMachine.Proofs.Graph.Trees
import Mathlib.Data.List.Nodup
import Mathlib.Data.List.Perm.Basic

/-!
The equations that a parse collects, apart from the graph in which it solves them. A ledger has an
entry for every node: a leaf, or an attribute with the action that defines it, if there is one. Its
solutions are the trees that the entries determine: an attribute is solved if all that its action
reads is, so that one which is part of a circle is not. The actions of a rule make the same ledger
in any order, if no two of them have the same target.
-/

namespace GrammarMachine

namespace Ledger

/-- The action that defines an attribute, with the attributes it reads; a slot may name none. -/
structure Definition where
  action : SemanticAction
  params : List (Option Nat)

/-- A node before anything is computed. -/
inductive Entry where
  | text (content : String) (pos : Nat) (error : Bool)
  | null
  | declared (origin : Origin) (definition : Option Definition)

/-- An entry without a definition. -/
def Entry.Fresh (entry : Entry) : Prop := ∀ o d, entry ≠ declared o (some d)

theorem Entry.fresh_null : Entry.null.Fresh := by
  intro o d same
  cases same

/-- The first definition of an attribute counts. -/
def Entry.define (d : Definition) : Entry → Entry
  | declared o none => declared o (some d)
  | entry => entry

end Ledger

/-- The entries of nodes, by number. -/
abbrev Ledger : Type := List Ledger.Entry

/-- A value from the number of a function, the position of the call and the trees of what it is
applied to. -/
abbrev Meaning (V : Type) : Type :=
  UInt32 → Nat → List (Snapshot V) → Except String (Produced V)

section Values

variable {V : Type}

/-- What the answer of the host makes of an attribute. -/
def Snapshot.ofResult (function : UInt32) (pos : Nat) : Except String (Produced V) → Snapshot V
  | .ok produced => .user function (some produced.value) (produced.pos.getD pos) false
  | .error _ => .user function none pos true

/-- What an action that is no copy makes of the trees of its parameters. -/
def SemanticAction.apply (meaning : Meaning V) (a : SemanticAction) (pos : Nat)
    (vs : List (Snapshot V)) : Snapshot V :=
  if a.soft then .term a.function vs pos (vs.any Snapshot.isError)
  else if vs.any Snapshot.isError then .null
  else .ofResult a.function pos (meaning a.function pos vs)

/-- The report that an answer makes necessary. -/
def refusal? (o : Origin) : Except String (Produced V) → Option (Origin × String)
  | .ok _ => none
  | .error reason => some (o, reason)

end Values

/-- The attribute that a slot names, if it is there. -/
def Slot.find? (lhs : List Nat) (rhs : List (List Nat)) (s : Slot) : Option Nat :=
  (if s.depth == 0 then lhs else (rhs[s.depth.toNat - 1]?).getD [])[s.index.toNat]?

namespace Ledger

section Solutions

variable {V : Type} {meaning : Meaning V} {D D' D'' : Ledger} {p : Option Nat} {v v' : Snapshot V}

/-- The trees that a ledger determines. What does not exist counts as null. -/
inductive Solves (meaning : Meaning V) (D : Ledger) : Option Nat → Snapshot V → Prop
  | missing : Solves meaning D none .null
  | text {n : Nat} {content : String} {pos : Nat} {error : Bool}
      (here : D[n]? = some (.text content pos error)) :
      Solves meaning D (some n) (.text content pos error)
  | null {n : Nat} (here : D[n]? = some .null) : Solves meaning D (some n) .null
  | copy {n : Nat} {o : Origin} {a : SemanticAction} {p : Option Nat} {v : Snapshot V}
      (here : D[n]? = some (.declared o (some ⟨a, [p]⟩))) (copy : a.isCopy = true)
      (source : Solves meaning D p v) : Solves meaning D (some n) v
  | apply {n : Nat} {o : Origin} {a : SemanticAction} {ps : List (Option Nat)}
      {vs : List (Snapshot V)} (here : D[n]? = some (.declared o (some ⟨a, ps⟩)))
      (computed : a.isCopy = false) (length : ps.length = vs.length)
      (params : ∀ {p v}, (p, v) ∈ ps.zip vs → Solves meaning D p v) :
      Solves meaning D (some n) (a.apply meaning o.pos vs)

/-- The host is asked for the value of an attribute, which leads to a report or to none. -/
inductive Asked (meaning : Meaning V) (D : Ledger) (n : Nat) : Option (Origin × String) → Prop
  | call {o : Origin} {a : SemanticAction} {ps : List (Option Nat)} {vs : List (Snapshot V)}
      (here : D[n]? = some (.declared o (some ⟨a, ps⟩))) (hard : a.soft = false)
      (params : List.Forall₂ (Solves meaning D) ps vs)
      (clean : vs.any Snapshot.isError = false) :
      Asked meaning D n (refusal? o (meaning a.function o.pos vs))

/-- All but undefined attributes stays as it is. -/
def Extends (D D' : Ledger) : Prop :=
  ∀ ⦃n : Nat⦄ ⦃entry : Entry⦄, D[n]? = some entry → (∀ o, entry ≠ .declared o none) →
    D'[n]? = some entry

theorem Extends.refl (D : Ledger) : D.Extends D := fun _ _ here _ => here

theorem Extends.trans (first : D.Extends D') (second : D'.Extends D'') : D.Extends D'' :=
  fun _ _ here settled => second (first here settled) settled

theorem extends_append (D more : Ledger) : D.Extends (D ++ more) := by
  intro n entry here _
  rw [List.getElem?_append_left (List.getElem?_eq_some_iff.1 here).1, here]

theorem Solves.extends (solved : D.Solves meaning p v) (more : D.Extends D') :
    D'.Solves meaning p v := by
  induction solved with
  | missing => exact .missing
  | text here => exact .text (more here nofun)
  | null here => exact .null (more here nofun)
  | copy here copy _ ih => exact .copy (more here nofun) copy ih
  | apply here computed length _ ih => exact .apply (more here nofun) computed length ih

theorem Asked.extends {n : Nat} {r : Option (Origin × String)} (asked : D.Asked meaning n r)
    (more : D.Extends D') : D'.Asked meaning n r := by
  cases asked with
  | call here hard params clean =>
    exact .call (more here nofun) hard (params.imp fun _ _ solved => solved.extends more) clean

end Solutions

section Performing

variable {lhs : List Nat} {rhs : List (List Nat)} {D : Ledger} {a b : SemanticAction}

/-- The ledger with a definition for an attribute. -/
def define (D : Ledger) (target : Option Nat) (d : Definition) : Ledger :=
  match target with
  | some n => D.modify n (Entry.define d)
  | none => D

def nulls (k : Nat) : Ledger := List.replicate k .null

/-- The entries of those slots that name nothing. -/
def absent (lhs : List Nat) (rhs : List (List Nat)) (ss : List Slot) : Ledger :=
  nulls (ss.countP fun s => (s.find? lhs rhs).isNone)

theorem nulls_append (j k : Nat) : nulls j ++ nulls k = nulls (j + k) :=
  List.replicate_append_replicate

theorem absent_cons (s : Slot) (ss : List Slot) :
    absent lhs rhs (s :: ss) = absent lhs rhs [s] ++ absent lhs rhs ss := by
  rw [absent, absent, absent, nulls_append, List.countP_cons, List.countP_singleton, Nat.add_comm]

/-- What an action adds to the ledger. -/
def perform (lhs : List Nat) (rhs : List (List Nat)) (D : Ledger) (a : SemanticAction) : Ledger :=
  (D ++ absent lhs rhs (a.target :: a.params)).define (a.target.find? lhs rhs)
    ⟨a, a.params.map (Slot.find? lhs rhs)⟩

theorem getElem?_define (D : Ledger) (target : Option Nat) (d : Definition) (i : Nat) :
    (D.define target d)[i]? =
      if target = some i then D[i]?.map (Entry.define d) else D[i]? := by
  cases target with
  | none => simp [define]
  | some n =>
    rw [define, List.getElem?_modify]
    by_cases same : n = i <;> simp [same]

@[simp] theorem length_define (D : Ledger) (target : Option Nat) (d : Definition) :
    (D.define target d).length = D.length := by
  cases target <;> simp [define]

theorem extends_define (D : Ledger) (target : Option Nat) (d : Definition) :
    D.Extends (D.define target d) := by
  intro n entry here settled
  rw [getElem?_define, here]
  split
  · cases entry with
    | declared o definition =>
      cases definition with
      | none => exact absurd rfl (settled o)
      | some _ => rfl
    | _ => rfl
  · rfl

/-- Nothing else is defined. -/
theorem define_eq_self {n : Nat} (other : ∀ o, D[n]? ≠ some (.declared o none)) (d : Definition) :
    D.define (some n) d = D := by
  refine List.ext_getElem? fun i => ?_
  rw [getElem?_define]
  split
  · next same =>
    cases same
    cases here : D[n]? with
    | none => rfl
    | some entry =>
      cases entry with
      | declared o definition =>
        cases definition with
        | none => exact absurd here (other o)
        | some _ => rfl
      | _ => rfl
  · rfl

theorem define_append_nulls (D : Ledger) (k : Nat) (target : Option Nat) (d : Definition) :
    (D ++ nulls k).define target d = D.define target d ++ nulls k := by
  refine List.ext_getElem? fun i => ?_
  simp only [getElem?_define, List.getElem?_append, length_define, nulls, List.getElem?_replicate]
  split
  · split
    · rfl
    · split <;> rfl
  · rfl

/-- All definitions are by actions of this kind. -/
def Uses (D : Ledger) (kind : SemanticAction → Prop) : Prop :=
  ∀ ⦃n : Nat⦄ ⦃o : Origin⦄ ⦃d : Definition⦄, D[n]? = some (.declared o (some d)) → kind d.action

theorem Uses.append {kind : SemanticAction → Prop} (uses : D.Uses kind) {new : Ledger}
    (fresh : ∀ entry ∈ new, entry.Fresh) : (D ++ new).Uses kind := by
  intro n o d here
  rw [List.getElem?_append] at here
  split at here
  · exact uses here
  · exact absurd rfl (fresh _ (List.mem_of_getElem? here) o d)

theorem Uses.define {kind : SemanticAction → Prop} (uses : D.Uses kind) (target : Option Nat)
    {d : Definition} (new : kind d.action) : (D.define target d).Uses kind := by
  intro n o d' here
  rw [getElem?_define] at here
  split at here
  · obtain ⟨entry, there, same⟩ := Option.map_eq_some_iff.1 here
    cases entry with
    | declared o' definition =>
      cases definition with
      | none =>
        cases same
        exact new
      | some _ =>
        cases same
        exact uses there
    | _ => cases same
  · exact uses here

/-- So are those that a rule adds. -/
theorem Uses.performAll {kind : SemanticAction → Prop} {actions : List SemanticAction}
    (uses : D.Uses kind) (each : ∀ a ∈ actions, kind a) :
    (actions.foldl (perform lhs rhs) D).Uses kind := by
  induction actions generalizing D with
  | nil => exact uses
  | cons a rest ih =>
    obtain ⟨first, others⟩ := List.forall_mem_cons.1 each
    refine ih ?_ others
    refine (uses.append fun entry mem => ?_).define _ first
    rw [(List.mem_replicate.1 mem).2]
    nofun

theorem define_comm {m n : Option Nat} (different : m = n → m = none) (D : Ledger)
    (d d' : Definition) : (D.define m d).define n d' = (D.define n d').define m d := by
  refine List.ext_getElem? fun i => ?_
  simp only [getElem?_define]
  by_cases first : m = some i
  · have second : n ≠ some i := by
      intro same
      rw [different (first.trans same.symm)] at first
      cases first
    rw [if_neg second, if_pos first, if_pos first, if_neg second]
  · rw [if_neg first, if_neg first]

theorem perform_comm (different : a.target.find? lhs rhs = b.target.find? lhs rhs →
    a.target.find? lhs rhs = none) (D : Ledger) :
    (D.perform lhs rhs a).perform lhs rhs b = (D.perform lhs rhs b).perform lhs rhs a := by
  simp only [perform, absent, define_append_nulls, List.append_assoc, nulls_append]
  rw [define_comm different, Nat.add_comm]

theorem exists_of_find? {s : Slot} {n : Nat} (named : s.find? lhs rhs = some n) :
    ∃ attrs, (lhs :: rhs)[s.depth.toNat]? = some attrs ∧ attrs[s.index.toNat]? = some n := by
  unfold Slot.find? at named
  split at named
  · next zero =>
    have zero : s.depth = 0 := by simpa using zero
    exact ⟨lhs, by rw [zero]; rfl, named⟩
  · next other =>
    have positive : s.depth.toNat ≠ 0 := by
      intro zero
      exact other (by simpa using UInt32.toNat_inj.1 zero)
    cases there : rhs[s.depth.toNat - 1]? with
    | none => simp [there] at named
    | some attrs =>
      rw [there] at named
      exact ⟨attrs, by rw [List.getElem?_cons, if_neg positive, there], named⟩

/-- Different slots name different attributes. -/
theorem find?_injective (nodup : (lhs :: rhs).flatten.Nodup) {s t : Slot} {n : Nat}
    (first : s.find? lhs rhs = some n) (second : t.find? lhs rhs = some n) : s = t := by
  obtain ⟨lists, disjoint⟩ := List.nodup_flatten.1 nodup
  obtain ⟨attrs, at_s, in_s⟩ := exists_of_find? first
  obtain ⟨attrs', at_t, in_t⟩ := exists_of_find? second
  have depth : s.depth.toNat = t.depth.toNat := by
    by_contra other
    have apart : List.Disjoint attrs attrs' := by
      obtain ⟨inside, rfl⟩ := List.getElem?_eq_some_iff.1 at_s
      obtain ⟨inside', rfl⟩ := List.getElem?_eq_some_iff.1 at_t
      rcases Nat.lt_or_gt_of_ne other with less | more
      · exact List.pairwise_iff_getElem.1 disjoint _ _ _ _ less
      · exact List.disjoint_symm (List.pairwise_iff_getElem.1 disjoint _ _ _ _ more)
    exact apart (List.mem_of_getElem? in_s) (List.mem_of_getElem? in_t)
  rw [depth] at at_s
  cases at_s.symm.trans at_t
  have index : s.index.toNat = t.index.toNat := by
    obtain ⟨inside, here⟩ := List.getElem?_eq_some_iff.1 in_s
    obtain ⟨inside', there⟩ := List.getElem?_eq_some_iff.1 in_t
    exact (lists attrs (List.mem_of_getElem? at_t)).getElem_inj_iff.1 (here.trans there.symm)
  obtain ⟨depth₁, index₁⟩ := s
  obtain ⟨depth₂, index₂⟩ := t
  rw [Slot.mk.injEq]
  exact ⟨UInt32.toNat_inj.1 depth, UInt32.toNat_inj.1 index⟩

/-- Actions with different targets make the same ledger in any order. -/
theorem foldl_perform_eq_of_perm (nodup : (lhs :: rhs).flatten.Nodup)
    {actions actions' : List SemanticAction} (perm : actions.Perm actions')
    (targets : (actions.map SemanticAction.target).Nodup) (D : Ledger) :
    actions.foldl (perform lhs rhs) D = actions'.foldl (perform lhs rhs) D := by
  refine perm.foldl_eq' (fun a among b among' D => ?_) D
  by_cases equal : a = b
  · rw [equal]
  · refine perform_comm (fun same => ?_) D
    cases named : a.target.find? lhs rhs with
    | none => rfl
    | some n =>
      have slots := find?_injective nodup named (same.symm.trans named)
      exact absurd (List.inj_on_of_nodup_map targets among among' slots) equal

end Performing

end Ledger

end GrammarMachine
