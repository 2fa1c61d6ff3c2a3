import GrammarMachine.Proofs.Lexer.Levels
import GrammarMachine.Samples.Keyword

/-!
How many levels a scan needs. A guard in reach of the root asks for a continuation, a guard in reach
of that one's root for another, and so on. With a level for each guard of the longest such chain, no
continuation is refused for want of levels, and more of them change nothing.
-/

namespace GrammarMachine

namespace Automaton

variable {a : Automaton} {code : Nat → Int32} {k i n level level' : Nat} {root id next : UInt32}
  {m₁ m₂ : UInt32} {r : Recognition}

/-- Transitions lead from `root` to a state, whatever their guards answer. -/
inductive InReach (a : Automaton) (root : UInt32) : UInt32 → Prop
  | root : InReach a root root
  | range {id : UInt32} {s : LexState} {r : CharRange} (reach : InReach a root id)
      (here : a.states[id.toNat]? = some s) (mem : r ∈ s.ranges) : InReach a root r.target
  | epsilon {id : UInt32} {s : LexState} {e : Epsilon} (reach : InReach a root id)
      (here : a.states[id.toNat]? = some s) (mem : e ∈ s.epsilons) : InReach a root e.target

/-- A guard in reach of `root` asks for the continuation rooted at `next`. -/
def Asks (a : Automaton) (root next : UInt32) : Prop :=
  ∃ id s e, a.InReach root id ∧ a.states[id.toNat]? = some s ∧ e ∈ s.epsilons ∧
    e.continuation = some next

/-- A chain of `n` guards: one in reach of `root`, one in reach of its continuation, and so on. -/
inductive Nests (a : Automaton) : UInt32 → Nat → Prop
  | none (root : UInt32) : Nests a root 0
  | guard {root next : UInt32} {n : Nat} (asks : a.Asks root next) (nests : Nests a next n) :
      Nests a root (n + 1)

section Ranks

/-- Transitions do not lead to a higher rank, and continuations start at a lower one. A test of the
continuation, rather than a statement for every number, keeps this decidable in few steps. -/
def Ranked (a : Automaton) (rank : Nat → Nat) : Prop :=
  ∀ i, ∀ _ : i < a.states.size, (∀ r ∈ a.states[i].ranges, rank r.target.toNat ≤ rank i) ∧
    ∀ e ∈ a.states[i].epsilons, rank e.target.toNat ≤ rank i ∧
      e.continuation.all fun next => rank next.toNat < rank i

instance (a : Automaton) (rank : Nat → Nat) : Decidable (a.Ranked rank) :=
  inferInstanceAs (Decidable (∀ i, ∀ _ : i < a.states.size, _))

variable {rank : Nat → Nat}

theorem Ranked.le_of_inReach (ranked : a.Ranked rank) (reach : a.InReach root id) :
    rank id.toNat ≤ rank root.toNat := by
  induction reach with
  | root => exact Nat.le_refl _
  | range _ here mem ih =>
    obtain ⟨inside, rfl⟩ := Array.getElem?_eq_some_iff.1 here
    exact Nat.le_trans ((ranked _ inside).1 _ mem) ih
  | epsilon _ here mem ih =>
    obtain ⟨inside, rfl⟩ := Array.getElem?_eq_some_iff.1 here
    exact Nat.le_trans ((ranked _ inside).2 _ mem).1 ih

/-- Chains of guards are no longer than the rank of their root. -/
theorem Ranked.le_of_nests (ranked : a.Ranked rank) (nests : a.Nests root n) :
    n ≤ rank root.toNat := by
  induction nests with
  | none => exact Nat.zero_le _
  | guard asks _ ih =>
    obtain ⟨id, s, e, reach, here, mem, continues⟩ := asks
    obtain ⟨inside, rfl⟩ := Array.getElem?_eq_some_iff.1 here
    have lower := ((ranked _ inside).2 e mem).2
    rw [continues, Option.all_some, decide_eq_true_eq] at lower
    have := ranked.le_of_inReach reach
    omega

end Ranks

/-- What is reached is in reach, also with another number of levels. -/
theorem Reaches.inReach {holds : Nat → UInt32 → Prop}
    (reached : { a with maxDepth := m₁ }.Reaches code holds k root i id) : a.InReach root id := by
  induction reached with
  | root => exact .root
  | range _ _ here moves ih =>
    obtain ⟨r, mem, _, _, rfl⟩ := moves
    exact .range ih here mem
  | epsilon _ here mem _ ih => exact .epsilon ih here mem

/-- Only the guards in reach of the root count for a run. -/
theorem Reaches.of_asked {holds holds' : Nat → UInt32 → Prop}
    (agree : ∀ next, a.Asks root next → ∀ j, holds j next → holds' j next)
    (reached : { a with maxDepth := m₁ }.Reaches code holds k root i id) :
    { a with maxDepth := m₂ }.Reaches code holds' k root i id := by
  induction reached with
  | root => exact .root
  | range _ before here moves ih => exact .range ih before here moves
  | epsilon reached here mem guard ih =>
    exact .epsilon ih here mem fun next guarded =>
      agree next ⟨_, _, _, reached.inReach, here, mem, guarded⟩ _ (guard next guarded)

/-- What a run recognizes with some number of levels it recognizes with any number that is enough
for the chains of guards in reach. The induction is on the levels of the given run. -/
theorem RecognizesAt.of_nests (deep : ∀ n, a.Nests root n → n ≤ level')
    (recognizes : { a with maxDepth := m₁ }.RecognizesAt code
      ({ a with maxDepth := m₁ }.Continues code level) k root i r) :
    { a with maxDepth := m₂ }.RecognizesAt code
      ({ a with maxDepth := m₂ }.Continues code level') k root i r := by
  induction level generalizing level' root k i r with
  | zero =>
    obtain ⟨id, s, reached, state⟩ := recognizes
    exact ⟨id, s, reached.of_asked fun _ _ _ => False.elim, state⟩
  | succ level ih =>
    obtain ⟨id, s, reached, state⟩ := recognizes
    refine ⟨id, s, reached.of_asked fun next asks j continues => ?_, state⟩
    obtain ⟨last, accepts⟩ := continues
    cases level' with
    | zero => exact absurd (deep 1 (.guard asks (.none next))) (Nat.not_succ_le_zero 0)
    | succ level' =>
      have deep' : ∀ n, a.Nests next n → n ≤ level' := fun n nests =>
        Nat.le_of_succ_le_succ (deep (n + 1) (.guard asks nests))
      exact ⟨last, ih deep' accepts⟩

/-- The longest match is a matter of what is recognized. -/
theorem Answers.congr {b : Automaton} {answer : Option Match}
    (same : ∀ n r, a.Recognizes code root n r ↔ b.Recognizes code root n r)
    (answers : a.Answers code root answer) : b.Answers code root answer := by
  have munches (m : Match) : a.Munches code root m ↔ b.Munches code root m := by
    simp only [Munches, Wins, same]
  refine ⟨fun m => (answers.found m).trans (munches m), ?_⟩
  simpa only [same] using answers.missing

/-- With levels enough for the chains of guards, more of them change no longest match. -/
theorem longestMatch_of_nests (closed : a.Closed) (inside : root.toNat < a.states.size)
    (deep₁ : ∀ n, a.Nests root n → n ≤ m₁.toNat) (deep₂ : ∀ n, a.Nests root n → n ≤ m₂.toNat)
    {c : Cursor} (faithful : c.Faithful) :
    ∃ found c₁ c₂, { a with maxDepth := m₁ }.longestMatch root c = .ok (found, c₁) ∧
      { a with maxDepth := m₂ }.longestMatch root c = .ok (found, c₂) ∧
      c.Peeked c₁ ∧ c.Peeked c₂ := by
  have closed' (m : UInt32) : { a with maxDepth := m }.Closed :=
    ⟨closed.epsilon, closed.continuation, closed.range, closed.found⟩
  obtain ⟨⟨found, c₁⟩, first, peeked₁, answers₁⟩ :=
    ends_longestMatch (closed' m₁) inside faithful
  obtain ⟨⟨found', c₂⟩, second, peeked₂, answers₂⟩ :=
    ends_longestMatch (closed' m₂) inside faithful
  have same (n : Nat) (r : Recognition) : { a with maxDepth := m₁ }.Recognizes c.code root n r ↔
      { a with maxDepth := m₂ }.Recognizes c.code root n r :=
    and_congr_left' ⟨.of_nests deep₂, .of_nests deep₁⟩
  obtain rfl := (answers₁.congr same).unique answers₂
  exact ⟨found, c₁, c₂, first, second, peeked₁, peeked₂⟩

end Automaton

section Example

open Samples.Keyword

/-- The rank of a state of the keyword lexer: 0 within the continuation, 1 elsewhere. -/
def keywordRank (i : Nat) : Nat := if i = 4 ∨ i = 5 then 0 else 1

/-- Without a level for it the guard refuses, and the longest match is an identifier. -/
example : ({ lexer with maxDepth := 0 }.longestMatch 0
    (.start (.ofText "if(" false))).toOption.map Prod.fst =
      some (some ⟨.token identifier, 2⟩) := by decide +kernel

end Example

end GrammarMachine
