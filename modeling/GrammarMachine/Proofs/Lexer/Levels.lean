import GrammarMachine.Proofs.Lexer.Traversal

/-!
Guards with more levels left. Of two guards at one place, the second never refuses where the first
accepts; then a continuation that is followed with the second keeps all states that it keeps with
the first, turn by turn, and ends wherever that one does. So more levels never turn a yes into a no,
on any automaton, and the same levels answer alike whatever has been read ahead.
-/

namespace GrammarMachine.Automaton

open Scan

variable {a : Automaton} {c₀ c c' : Cursor} {n i level : Nat} {root : UInt32} {set : StateSet}
  {answer : Bool}

/-- The guard leaves the cursor at the place of `c₀`. -/
def Stays (c₀ : Cursor) (guard : UInt32 → Scan Bool) : Prop :=
  ∀ root c c' answer, c₀.Peeked c → guard root c = .ok (answer, c') → c₀.Peeked c'

/-- The guard gives this answer at the place of `c₀`, with something or other read ahead. -/
def Answered (c₀ : Cursor) (guard : UInt32 → Scan Bool) (answer : Bool) (root : UInt32) : Prop :=
  ∃ c c', c₀.Peeked c ∧ guard root c = .ok (answer, c')

/-- Where the first guard accepts, the second does not refuse. -/
def Implies (c₀ : Cursor) (guard₁ guard₂ : UInt32 → Scan Bool) : Prop :=
  ∀ root, Answered c₀ guard₁ true root → ¬Answered c₀ guard₂ false root

theorem Stays.tells {guard : UInt32 → Scan Bool} (stays : Stays c₀ guard) :
    Tells c₀.Peeked guard (Answered c₀ guard true) (Answered c₀ guard false) := by
  intro root c c' answer peeked asked
  refine ⟨stays root c c' answer peeked asked, ?_, ?_⟩
  · rintro rfl
    exact ⟨c, c', peeked, asked⟩
  · rintro rfl
    exact ⟨c, c', peeked, asked⟩

theorem code_of_peek {code : Int32} (peeked : c₀.Peeked c) (read : peek i c = .ok (code, c')) :
    c₀.Peeked c' ∧ code = c₀.code i := by
  obtain ⟨⟨_, _⟩, read', holds⟩ := ends_peek peeked i
  cases read'.symm.trans read
  exact holds

/-- A turn of a continuation at place `i`, where the closed set is `here`. -/
inductive FollowTurn (a : Automaton) (c₀ : Cursor) (guard : Nat → UInt32 → Scan Bool) (n i : Nat)
    (here : StateSet) (answer : Bool) (c' : Cursor) : Prop
  | accepted (accepts : a.Finds here .followAccept) (yes : answer = true) (peeked : c₀.Peeked c')
  | lost (empty : here = []) (no : answer = false) (peeked : c₀.Peeked c')
  | ended {next last : StateSet} (missing : ¬a.Finds here .followAccept) (some_state : here ≠ [])
      (ended : isEndCode (c₀.code i) = true) (moved : a.advance here (c₀.code i) = .ok next)
      (shuts : a.Shuts (Answered c₀ (guard (i + 1)) true) (Answered c₀ (guard (i + 1)) false)
        next last)
      (answers : answer = true ↔ a.Finds last .followAccept) (peeked : c₀.Peeked c')
  | on {next : StateSet} {c : Cursor} (missing : ¬a.Finds here .followAccept)
      (some_state : here ≠ []) (going : isEndCode (c₀.code i) = false)
      (moved : a.advance here (c₀.code i) = .ok next) (peeked : c₀.Peeked c)
      (rest : a.followFrom guard n (i + 1) next c = .ok (answer, c'))

theorem followTurn_of_followFrom {guard : Nat → UInt32 → Scan Bool}
    (stays : ∀ i, Stays c₀ (guard i)) (peeked : c₀.Peeked c)
    (result : a.followFrom guard (n + 1) i set c = .ok (answer, c')) :
    ∃ here, a.Shuts (Answered c₀ (guard i) true) (Answered c₀ (guard i) false) set here ∧
      a.FollowTurn c₀ guard n i here answer c' := by
  unfold followFrom at result
  obtain ⟨here, c₁, closed, result⟩ := Scan.bind_eq_ok_iff.1 result
  obtain ⟨peeked, shuts⟩ := shuts_of_close (stays i).tells peeked closed
  refine ⟨here, shuts, ?_⟩
  obtain ⟨accepted, asked, result⟩ := lift_bind_eq_ok_iff.1 result
  have finds := finds_of_accepts asked
  split at result
  · next yes =>
    cases result
    exact .accepted (finds.1 yes) rfl peeked
  · next no =>
    have missing : ¬a.Finds here .followAccept := fun there => no (finds.2 there)
    split at result
    · next empty =>
      cases result
      exact .lost (List.isEmpty_iff.1 empty) rfl peeked
    · next some_state =>
      have some_state : here ≠ [] := by simpa using some_state
      obtain ⟨code, c₂, read, result⟩ := Scan.bind_eq_ok_iff.1 result
      obtain ⟨peeked, rfl⟩ := code_of_peek peeked read
      obtain ⟨next, moved, result⟩ := lift_bind_eq_ok_iff.1 result
      split at result
      · next ended =>
        obtain ⟨last, c₃, closed, result⟩ := Scan.bind_eq_ok_iff.1 result
        obtain ⟨peeked, shuts⟩ := shuts_of_close (stays (i + 1)).tells peeked closed
        obtain ⟨asked, rfl⟩ := lift_eq_ok_iff.1 result
        exact .ended missing some_state ended moved shuts (finds_of_accepts asked) peeked
      · next going =>
        exact .on missing some_state (by simpa using going) moved peeked result

theorem peeked_of_followFrom {guard : Nat → UInt32 → Scan Bool} (stays : ∀ i, Stays c₀ (guard i))
    (peeked : c₀.Peeked c) (result : a.followFrom guard n i set c = .ok (answer, c')) :
    c₀.Peeked c' := by
  induction n generalizing i set c with
  | zero => cases result
  | succ n ih =>
    obtain ⟨here, -, turn⟩ := followTurn_of_followFrom stays peeked result
    cases turn with
    | accepted _ _ peeked => exact peeked
    | lost _ _ peeked => exact peeked
    | ended _ _ _ _ _ _ peeked => exact peeked
    | on _ _ _ _ peeked rest => exact ih peeked rest

theorem stays_follows (a : Automaton) (c₀ : Cursor) (level i : Nat) :
    Stays c₀ (a.follows level i) := by
  induction level generalizing i with
  | zero =>
    intro root c c' answer peeked result
    cases result
    exact peeked
  | succ level ih =>
    intro root c c' answer peeked result
    obtain ⟨set, _, result⟩ := lift_bind_eq_ok_iff.1 result
    obtain ⟨now, c₁, same, result⟩ := Scan.bind_eq_ok_iff.1 result
    cases same
    exact peeked_of_followFrom ih peeked result

section Lockstep

variable {yes₁ no₁ yes₂ no₂ : UInt32 → Prop} {set₁ set₂ set₁' set₂' : StateSet}

theorem Shuts.subset_of_subset (first : a.Shuts yes₁ no₁ set₁ set₁')
    (second : a.Shuts yes₂ no₂ set₂ set₂') (implies : ∀ root, yes₁ root → ¬no₂ root)
    (subset : set₁ ⊆ set₂) : set₁' ⊆ set₂' := by
  refine fun id mem => first.least (· ∈ set₂') (fun x old => second.subset (subset old)) ?_ id mem
  intro id s e there here among free
  rcases second.all id there s here e among with known | ⟨root, guarded, refused⟩
  · exact known
  · exact absurd refused (implies root (free root guarded))

theorem advance_subset {code : Int32} (first : a.advance set₁ code = .ok set₁')
    (second : a.advance set₂ code = .ok set₂') (subset : set₁ ⊆ set₂) : set₁' ⊆ set₂' := by
  intro target mem
  obtain ⟨id, old, step⟩ := (mem_of_advance first target).1 mem
  exact (mem_of_advance second target).2 ⟨id, subset old, step⟩

theorem Finds.mono {r : Recognition} (finds : a.Finds set₁ r) (subset : set₁ ⊆ set₂) :
    a.Finds set₂ r := by
  obtain ⟨id, mem, state⟩ := finds
  exact ⟨id, subset mem, state⟩

/-- Turn by turn, the second run keeps the states of the first, and ends at the latest with it. -/
theorem followFrom_mono {guard₁ guard₂ : Nat → UInt32 → Scan Bool} {n₁ n₂ : Nat}
    {c₁ c₂ c₁' c₂' : Cursor} (stays₁ : ∀ i, Stays c₀ (guard₁ i))
    (stays₂ : ∀ i, Stays c₀ (guard₂ i)) (implies : ∀ i, Implies c₀ (guard₁ i) (guard₂ i))
    (subset : set₁ ⊆ set₂) (peeked₁ : c₀.Peeked c₁) (peeked₂ : c₀.Peeked c₂)
    (first : a.followFrom guard₁ n₁ i set₁ c₁ = .ok (true, c₁'))
    (second : a.followFrom guard₂ n₂ i set₂ c₂ = .ok (answer, c₂')) : answer = true := by
  induction n₁ generalizing n₂ i set₁ set₂ c₁ c₂ with
  | zero => cases first
  | succ n₁ ih =>
    cases n₂ with
    | zero => cases second
    | succ n₂ =>
      obtain ⟨here₁, shuts₁, turn₁⟩ := followTurn_of_followFrom stays₁ peeked₁ first
      obtain ⟨here₂, shuts₂, turn₂⟩ := followTurn_of_followFrom stays₂ peeked₂ second
      have subset := shuts₁.subset_of_subset shuts₂ (implies i) subset
      -- Where the first run is not lost, neither is the second, and both read the same code.
      cases turn₂ with
      | accepted _ yes => exact yes
      | lost empty =>
        obtain rfl : here₁ = [] := List.subset_nil.1 (empty ▸ subset)
        cases turn₁ with
        | accepted accepts =>
          obtain ⟨_, mem, _⟩ := accepts
          cases mem
        | lost _ no => cases no
        | ended _ some_state => exact absurd rfl some_state
        | on _ some_state => exact absurd rfl some_state
      | ended missing _ ended moved₂ shuts₂ answers =>
        cases turn₁ with
        | accepted accepts => exact absurd (accepts.mono subset) missing
        | lost _ no => cases no
        | ended _ _ _ moved₁ shuts₁ accepts =>
          have subset := shuts₁.subset_of_subset shuts₂ (implies (i + 1))
            (advance_subset moved₁ moved₂ subset)
          exact answers.2 ((accepts.1 rfl).mono subset)
        | on _ _ going => cases ended.symm.trans going
      | on missing _ going moved₂ peeked₂ second =>
        cases turn₁ with
        | accepted accepts => exact absurd (accepts.mono subset) missing
        | lost _ no => cases no
        | ended _ _ ended => cases ended.symm.trans going
        | on _ _ _ moved₁ peeked₁ first =>
          exact ih (advance_subset moved₁ moved₂ subset) peeked₁ peeked₂ first second

/-- A continuation that is found with some levels is not missed with as many or more. -/
theorem follows_implies {level' : Nat} (le : level ≤ level') (i : Nat) :
    Implies c₀ (a.follows level i) (a.follows level' i) := by
  induction level generalizing level' i with
  | zero =>
    rintro root ⟨_, _, _, result⟩
    cases result
  | succ level ih =>
    cases level' with
    | zero => exact absurd le (Nat.not_succ_le_zero level)
    | succ level' =>
      rintro root ⟨c₁, c₁', peeked₁, first⟩ ⟨c₂, c₂', peeked₂, second⟩
      obtain ⟨set₁, started₁, first⟩ := lift_bind_eq_ok_iff.1 first
      obtain ⟨set₂, started₂, second⟩ := lift_bind_eq_ok_iff.1 second
      obtain ⟨_, _, same, first⟩ := Scan.bind_eq_ok_iff.1 first
      cases same
      obtain ⟨_, _, same, second⟩ := Scan.bind_eq_ok_iff.1 second
      cases same
      cases started₁.symm.trans started₂
      have found := followFrom_mono (stays_follows a c₀ level) (stays_follows a c₀ level')
        (ih (Nat.le_of_succ_le_succ le)) (List.Subset.refl set₁) peeked₁ peeked₂ first second
      cases found

theorem follows_of_follows {c₁ c₁' c₂ c₂' : Cursor} (peeked₁ : c₀.Peeked c₁)
    (peeked₂ : c₀.Peeked c₂) (holds : a.follows level i root c₁ = .ok (true, c₁'))
    (result : a.follows (level + 1) i root c₂ = .ok (answer, c₂')) : answer = true := by
  cases answer with
  | true => rfl
  | false =>
    exact absurd ⟨c₂, c₂', peeked₂, result⟩
      (follows_implies (Nat.le_succ level) i root ⟨c₁, c₁', peeked₁, holds⟩)

end Lockstep

section Linked

variable {guard : Nat → UInt32 → Scan Bool} {holds : Nat → UInt32 → Prop}

/-- Sorted or not, the ranges of an automaton that leads nowhere else let a run go on to its end. -/
theorem ends_followFrom_of_linked (linked : a.Linked)
    (decides : ∀ i, a.Decides c₀ (guard i) (holds i)) (inside : a.Holds set) (peeked : c₀.Peeked c)
    (some_turn : 0 < n) (enough : c₀.remaining < n + i) :
    (a.followFrom guard n i set).Ends c fun _ c' => c₀.Peeked c' := by
  induction n generalizing i set c with
  | zero => omega
  | succ n ih =>
    unfold followFrom
    refine (ends_close linked (decides i) inside peeked).bind ?_
    rintro set c ⟨peeked, closure⟩
    refine .lift (yields_accepts closure.inside) fun accepted _ => ?_
    split
    · exact .pure peeked
    · split
      · exact .pure peeked
      · refine (Scan.ends_peek peeked i).bind ?_
        rintro _ c ⟨peeked, rfl⟩
        refine .lift (holds_of_advance linked closure.inside _) fun next inside => ?_
        split
        · refine (ends_close linked (decides (i + 1)) inside peeked).bind ?_
          rintro next c ⟨peeked, closure⟩
          refine (Scan.Ends.of_yields (yields_accepts closure.inside)).mono ?_
          rintro _ _ ⟨_, rfl⟩
          exact peeked
        · next going =>
          have going : isEndCode (c₀.code i) = false := by simpa using going
          have left := lt_remaining going
          exact ih inside peeked (by omega) (by omega)

/-- An automaton that leads nowhere else decides what follows. -/
theorem decides_follows_of_linked (linked : a.Linked) (c₀ : Cursor) (level i : Nat) :
    a.Decides c₀ (a.follows level i) (Answered c₀ (a.follows level i) true) := by
  induction level generalizing i with
  | zero =>
    refine fun _ _ _ peeked => .pure ⟨peeked, nofun, ?_⟩
    rintro ⟨_, _, _, result⟩
    cases result
  | succ level ih =>
    intro root inside c peeked
    have ends : (a.follows (level + 1) i root).Ends c fun _ c' => c₀.Peeked c' := by
      unfold follows
      refine .lift (yields_insert (holds_nil a) inside) fun set started => ?_
      refine (Scan.ends_get c).bind ?_
      rintro now c ⟨rfl, rfl⟩
      have same : c.remaining = c₀.remaining := by
        unfold Cursor.remaining
        rw [peeked.1.source, peeked.1.pos]
      exact ends_followFrom_of_linked linked ih started.1 peeked (by omega) (by omega)
    obtain ⟨⟨answer, c'⟩, result, peeked'⟩ := ends
    refine ⟨(answer, c'), result, peeked', ?_, fun found => ?_⟩
    · rintro rfl
      exact ⟨c, c', peeked, result⟩
    · cases answer with
      | true => rfl
      | false => exact absurd ⟨c, c', peeked, result⟩ (follows_implies (Nat.le_refl _) i root found)

/-- A continuation that is found with some levels is found with one more. -/
theorem follows_of_linked (linked : a.Linked) {c₁ c₁' c₂ : Cursor} (peeked₁ : c₀.Peeked c₁)
    (peeked₂ : c₀.Peeked c₂) (holds : a.follows level i root c₁ = .ok (true, c₁')) :
    ∃ c₂', a.follows (level + 1) i root c₂ = .ok (true, c₂') := by
  have inside : root.toNat < a.states.size := by
    cases level with
    | zero => cases holds
    | succ level =>
      obtain ⟨set, started, _⟩ := lift_bind_eq_ok_iff.1 holds
      unfold insert at started
      split at started
      · assumption
      · cases started
  obtain ⟨⟨answer, c₂'⟩, result, _⟩ :=
    decides_follows_of_linked linked c₀ (level + 1) i root inside c₂ peeked₂
  obtain rfl := follows_of_follows peeked₁ peeked₂ holds result
  exact ⟨c₂', result⟩

end Linked

end GrammarMachine.Automaton
