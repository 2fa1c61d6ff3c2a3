import GrammarMachine.Proofs.Lexer.Scanning

/-!
What a scan that succeeds has done, on any automaton. A set that was closed holds the targets of all
empty transitions of its states but those which a guard refused, and nothing that is not reached
from the set it was made of.
-/

namespace GrammarMachine

namespace Scan

variable {α β : Type}

theorem bind_eq_ok_iff {m : Scan α} {f : α → Scan β} {c : Cursor} {r : β × Cursor} :
    (m >>= f) c = .ok r ↔ ∃ a c', m c = .ok (a, c') ∧ f a c' = .ok r :=
  GrammarMachine.bind_eq_ok_iff.trans Prod.exists

/-- A step that does not look at the text leaves the cursor alone. -/
theorem lift_bind_eq_ok_iff {x : Except Fault α} {f : α → Scan β} {c : Cursor} {r : β × Cursor} :
    ((liftM x : Scan α) >>= f) c = .ok r ↔ ∃ a, x = .ok a ∧ f a c = .ok r := by
  cases x with
  | error fault => exact iff_of_false nofun fun ⟨_, same, _⟩ => nomatch same
  | ok a => exact ⟨fun rest => ⟨a, rfl, rest⟩, fun ⟨_, same, rest⟩ => by cases same; exact rest⟩

theorem lift_eq_ok_iff {x : Except Fault α} {a : α} {c c' : Cursor} :
    (liftM x : Scan α) c = .ok (a, c') ↔ x = .ok a ∧ c' = c := by
  cases x with
  | error fault => exact iff_of_false nofun fun ⟨same, _⟩ => nomatch same
  | ok b =>
    constructor
    · intro same
      cases same
      exact ⟨rfl, rfl⟩
    · rintro ⟨⟨⟩, rfl⟩
      rfl

/-- Guards keep `K`, and what they answer is `yes` or `no`. -/
def Tells (K : Cursor → Prop) (guard : UInt32 → Scan Bool) (yes no : UInt32 → Prop) : Prop :=
  ∀ root c c' taken, K c → guard root c = .ok (taken, c') →
    K c' ∧ (taken = true → yes root) ∧ (taken = false → no root)

end Scan

namespace Automaton

open Scan

variable {a : Automaton} {K : Cursor → Prop} {guard : UInt32 → Scan Bool}
  {yes no : UInt32 → Prop} {work work' : List UInt32} {set set' : StateSet} {c c' : Cursor}

/-- The continuation of the empty transition is refused. -/
def Refused (no : UInt32 → Prop) (e : Epsilon) : Prop :=
  ∃ root, e.continuation = some root ∧ no root

/-- What adding the targets of `es` has made of the states to follow and of the set. -/
structure Gathers (yes no : UInt32 → Prop) (es : List Epsilon) (work : List UInt32) (set : StateSet)
    (work' : List UInt32) (set' : StateSet) : Prop where
  subset : set ⊆ set'
  origin : ∀ id ∈ set', id ∈ set ∨ ∃ e ∈ es, Free yes e ∧ e.target = id
  all : ∀ e ∈ es, e.target ∈ set' ∨ Refused no e
  work_subset : work ⊆ work'
  queued : ∀ id ∈ set', id ∈ set ∨ id ∈ work'
  inside : work ⊆ set → work' ⊆ set'

section Gathering

variable {e : Epsilon} {es : List Epsilon}

theorem gathers_nil : Gathers yes no [] work set work set where
  subset := List.Subset.refl set
  origin := fun _ mem => .inl mem
  all := nofun
  work_subset := List.Subset.refl work
  queued := fun _ mem => .inl mem
  inside := id

/-- A target that is added joins both. -/
theorem Gathers.new {set₁ : StateSet}
    (gathers : Gathers yes no es (e.target :: work) set₁ work' set') (free : Free yes e)
    (mem : ∀ x, x ∈ set₁ ↔ x ∈ set ∨ x = e.target) :
    Gathers yes no (e :: es) work set work' set' where
  subset := fun x old => gathers.subset ((mem x).2 (.inl old))
  origin := by
    intro id there
    rcases gathers.origin id there with here | ⟨e', among, rest⟩
    · rcases (mem id).1 here with old | rfl
      · exact .inl old
      · exact .inr ⟨e, List.mem_cons_self, free, rfl⟩
    · exact .inr ⟨e', List.mem_cons_of_mem e among, rest⟩
  all := List.forall_mem_cons.2 ⟨.inl (gathers.subset ((mem _).2 (.inr rfl))), gathers.all⟩
  work_subset := fun x old => gathers.work_subset (List.mem_cons_of_mem _ old)
  queued := by
    intro id there
    rcases gathers.queued id there with here | later
    · rcases (mem id).1 here with old | rfl
      · exact .inl old
      · exact .inr (gathers.work_subset List.mem_cons_self)
    · exact .inr later
  inside := by
    intro before
    refine gathers.inside (List.cons_subset.2 ⟨(mem _).2 (.inr rfl), fun x old => ?_⟩)
    exact (mem x).2 (.inl (before old))

/-- A target that is there already, or was refused, changes nothing. -/
theorem Gathers.old (gathers : Gathers yes no es work set work' set')
    (known : e.target ∈ set ∨ Refused no e) : Gathers yes no (e :: es) work set work' set' where
  subset := gathers.subset
  origin := fun id there => (gathers.origin id there).imp_right fun ⟨e', among, rest⟩ =>
    ⟨e', List.mem_cons_of_mem e among, rest⟩
  all := List.forall_mem_cons.2 ⟨known.imp_left fun mem => gathers.subset mem, gathers.all⟩
  work_subset := gathers.work_subset
  queued := gathers.queued
  inside := gathers.inside

theorem gathers_of_addTargets (tells : Tells K guard yes no) (at_c : K c)
    (result : a.addTargets guard es work set c = .ok ((work', set'), c')) :
    K c' ∧ Gathers yes no es work set work' set' := by
  induction es generalizing work set c with
  | nil =>
    cases result
    exact ⟨at_c, gathers_nil⟩
  | cons e rest ih =>
    -- Whatever the guard has answered, the other transitions follow.
    have proceed : ∀ (taken : Bool) (c₁ : Cursor), K c₁ → (taken = true → Free yes e) →
        (taken = false → Refused no e) →
        (if taken && !set.contains e.target then do
            a.addTargets guard rest (e.target :: work) (← a.insert e.target set)
          else a.addTargets guard rest work set : Scan _) c₁ = .ok ((work', set'), c') →
        K c' ∧ Gathers yes no (e :: rest) work set work' set' := by
      intro taken c₁ at_c₁ free refused result
      split at result
      · next new =>
        rw [Bool.and_eq_true] at new
        obtain ⟨set₁, inserted, result⟩ := lift_bind_eq_ok_iff.1 result
        obtain ⟨at_c', gathers⟩ := ih at_c₁ result
        exact ⟨at_c', gathers.new (free new.1) (mem_of_insert inserted)⟩
      · next old =>
        obtain ⟨at_c', gathers⟩ := ih at_c₁ result
        refine ⟨at_c', gathers.old ?_⟩
        cases taken with
        | false => exact .inr (refused rfl)
        | true => exact .inl (by simpa using old)
    unfold addTargets at result
    cases guarded : e.continuation with
    | none =>
      rw [guarded] at result
      exact proceed true c at_c (by simp [Free, guarded]) (by simp) result
    | some root =>
      rw [guarded] at result
      obtain ⟨taken, c₁, asked, result⟩ := Scan.bind_eq_ok_iff.1 result
      obtain ⟨at_c₁, accepts, refuses⟩ := tells root c c₁ taken at_c asked
      refine proceed taken c₁ at_c₁ (fun took => ?_) (fun left => ⟨root, guarded, refuses left⟩)
        result
      simpa [Free, guarded] using accepts took

end Gathering

/-- What closing a set has made of it: the targets of empty transitions are in it unless they were
refused, and all of it is reached from the set before. -/
structure Shuts (a : Automaton) (yes no : UInt32 → Prop) (set set' : StateSet) : Prop where
  subset : set ⊆ set'
  all : ∀ id ∈ set', ∀ s, a.states[id.toNat]? = some s → ∀ e ∈ s.epsilons,
    e.target ∈ set' ∨ Refused no e
  least : ∀ P : UInt32 → Prop, (∀ id ∈ set, P id) →
    (∀ id s e, P id → a.states[id.toNat]? = some s → e ∈ s.epsilons → Free yes e → P e.target) →
    ∀ id ∈ set', P id

theorem shuts_of_closeFrom (tells : Tells K guard yes no) {n : Nat} (subset : work ⊆ set)
    (done : ∀ id ∈ set, id ∉ work → ∀ s, a.states[id.toNat]? = some s → ∀ e ∈ s.epsilons,
      e.target ∈ set ∨ Refused no e) (at_c : K c)
    (result : a.closeFrom guard n work set c = .ok (set', c')) :
    K c' ∧ a.Shuts yes no set set' := by
  induction n generalizing work set c with
  | zero =>
    cases work with
    | nil =>
      cases result
      exact ⟨at_c, List.Subset.refl _, fun id mem => done id mem List.not_mem_nil,
        fun _ start _ => start⟩
    | cons => cases result
  | succ n ih =>
    cases work with
    | nil =>
      cases result
      exact ⟨at_c, List.Subset.refl _, fun id mem => done id mem List.not_mem_nil,
        fun _ start _ => start⟩
    | cons id rest =>
      unfold closeFrom at result
      obtain ⟨s, found, result⟩ := lift_bind_eq_ok_iff.1 result
      have here := fetch_eq_ok_iff.1 found
      obtain ⟨⟨work₁, set₁⟩, c₁, added, result⟩ := Scan.bind_eq_ok_iff.1 result
      obtain ⟨at_c₁, gathers⟩ := gathers_of_addTargets tells at_c added
      have mem := subset List.mem_cons_self
      have inside := gathers.inside fun x later => subset (List.mem_cons_of_mem id later)
      -- State `id` has had its turn, and those that were done stay so.
      have done₁ : ∀ x ∈ set₁, x ∉ work₁ → ∀ s, a.states[x.toNat]? = some s → ∀ e ∈ s.epsilons,
          e.target ∈ set₁ ∨ Refused no e := by
        intro x there finished s' at_x e among
        by_cases same : x = id
        · rw [same, here] at at_x
          cases at_x
          exact gathers.all e among
        · have old : x ∈ set := (gathers.queued x there).resolve_right finished
          have before : x ∉ id :: rest := by
            have := gathers.work_subset
            grind
          exact (done x old before s' at_x e among).imp_left fun known => gathers.subset known
      obtain ⟨at_c', shuts⟩ := ih inside done₁ at_c₁ result
      refine ⟨at_c', List.Subset.trans gathers.subset shuts.subset, shuts.all, ?_⟩
      intro P start step
      refine shuts.least P (fun x there => ?_) step
      rcases gathers.origin x there with old | ⟨e, among, free, rfl⟩
      · exact start x old
      · exact step id s e (start id mem) here among free

theorem shuts_of_close (tells : Tells K guard yes no) (at_c : K c)
    (result : a.close guard set c = .ok (set', c')) : K c' ∧ a.Shuts yes no set set' :=
  shuts_of_closeFrom tells (List.Subset.refl _) (fun _ mem other => absurd mem other) at_c result

theorem finds_of_accepts {accepted : Bool} (result : a.accepts set = .ok accepted) :
    accepted = true ↔ a.Finds set .followAccept := by
  obtain ⟨rs, all, result⟩ := bind_eq_ok_iff.1 result
  cases result
  rw [List.contains_iff_mem, mem_of_recognitions all]

end Automaton

end GrammarMachine
