import GrammarMachine.Lexer.Scan
import GrammarMachine.Proofs.Grammar.Sound
import GrammarMachine.Proofs.Lexer.Window

/-!
What a lexical automaton recognizes, as a relation. A state is reached at a place by transitions
over the codes up to there, of which only the last may end the text, and by empty transitions; a
guarded one needs a continuation, which is a run of its own from the place of the guard, one level
deeper. A match is longest if no run ends a token further on, and among the tokens that end there it
is the one that wins.
-/

namespace GrammarMachine

/-- The code of the character `i` places ahead. The end of text repeats. -/
def Cursor.code (c : Cursor) (i : Nat) : Int32 :=
  (c.reader.source.readAt (c.reader.source.reach c.pos i)).code

/-- Different recognitions have different priorities. -/
theorem Recognition.eq_of_priority? {r r' : Recognition} {p : Nat} (first : r.priority? = some p)
    (second : r'.priority? = some p) : r = r' := by
  cases r <;> cases r' <;> simp only [priority?, token.injEq, ← UInt32.toNat_inj] at * <;> grind

namespace Automaton

/-- State `id` is reached at place `i` in a run from `root` at place `k`, where `holds j r` tells
whether the continuation rooted at `r` holds at place `j`. -/
inductive Reaches (a : Automaton) (code : Nat → Int32) (holds : Nat → UInt32 → Prop) (k : Nat)
    (root : UInt32) : Nat → UInt32 → Prop
  | root : Reaches a code holds k root k root
  /-- In front of a code that is read, the text has not ended. -/
  | range {i : Nat} {id target : UInt32} {s : LexState}
      (reached : Reaches a code holds k root i id)
      (before : ∀ j, k ≤ j → j < i → isEndCode (code j) = false)
      (here : a.states[id.toNat]? = some s) (moves : s.Moves (code i) target) :
      Reaches a code holds k root (i + 1) target
  | epsilon {i : Nat} {id : UInt32} {s : LexState} {e : Epsilon}
      (reached : Reaches a code holds k root i id) (here : a.states[id.toNat]? = some s)
      (mem : e ∈ s.epsilons) (guard : ∀ r, e.continuation = some r → holds i r) :
      Reaches a code holds k root i e.target

/-- A run from `root` at place `k` recognizes `r` at place `i`. -/
def RecognizesAt (a : Automaton) (code : Nat → Int32) (holds : Nat → UInt32 → Prop) (k : Nat)
    (root : UInt32) (i : Nat) (r : Recognition) : Prop :=
  ∃ id s, a.Reaches code holds k root i id ∧ a.states[id.toNat]? = some s ∧ s.recognized = r

/-- The continuation rooted at `root` holds at place `k`: with a level left for it, some run from
there ends a continuation. -/
def Continues (a : Automaton) (code : Nat → Int32) : Nat → Nat → UInt32 → Prop
  | 0, _, _ => False
  | level + 1, k, root => ∃ i, a.RecognizesAt code (a.Continues code level) k root i .followAccept

/-- A run from `root` recognizes `r` after `n` codes, and `r` ends a token or a comment mark. -/
def Recognizes (a : Automaton) (code : Nat → Int32) (root : UInt32) (n : Nat) (r : Recognition) :
    Prop :=
  a.RecognizesAt code (a.Continues code a.maxDepth.toNat) 0 root n r ∧ ∃ p, r.priority? = some p

/-- No other recognition after as many codes comes first. -/
def Wins (a : Automaton) (code : Nat → Int32) (root : UInt32) (n : Nat) (r : Recognition) : Prop :=
  a.Recognizes code root n r ∧ ∀ r' p p', a.Recognizes code root n r' → r.priority? = some p →
    r'.priority? = some p' → p ≤ p'

/-- The match that a scan should find. -/
def Munches (a : Automaton) (code : Nat → Int32) (root : UInt32) (m : Match) : Prop :=
  a.Wins code root m.length m.recognized ∧
    ∀ n r, a.Recognizes code root n r → n ≤ m.length

variable {a : Automaton} {code : Nat → Int32} {holds : Nat → UInt32 → Prop} {k : Nat}
  {root id : UInt32} {i : Nat}

namespace Reaches

theorem le (reached : a.Reaches code holds k root i id) : k ≤ i := by
  induction reached with
  | root => exact Nat.le_refl k
  | range _ _ _ _ ih => omega
  | epsilon _ _ _ _ ih => exact ih

/-- Only the last code of a run may end the text. -/
theorem inside (reached : a.Reaches code holds k root i id) {j : Nat} (le : k ≤ j)
    (lt : j + 1 < i) : isEndCode (code j) = false := by
  induction reached with
  | root => omega
  | range _ before _ _ _ => exact before j le (by omega)
  | epsilon _ _ _ _ ih => exact ih lt

/-- A run passes every place on its way. -/
theorem passes (reached : a.Reaches code holds k root i id) {j : Nat} (le : k ≤ j) (ge : j ≤ i) :
    ∃ id', a.Reaches code holds k root j id' := by
  induction reached with
  | root =>
    have same : j = k := by omega
    subst same
    exact ⟨root, .root⟩
  | @range i id target s reached before here moves ih =>
    rcases Nat.lt_or_eq_of_le ge with lt | rfl
    · exact ih (by omega)
    · exact ⟨target, .range reached before here moves⟩
  | epsilon _ _ _ _ ih => exact ih ge

end Reaches

section Ends

variable {r : Recognition}

theorem not_recognizesAt_of_unreached (start : k ≤ i)
    (empty : ∀ id, ¬a.Reaches code holds k root i id) {m : Nat} (le : i ≤ m) :
    ¬a.RecognizesAt code holds k root m r := by
  rintro ⟨id, s, reached, _⟩
  obtain ⟨id', there⟩ := reached.passes start le
  exact empty id' there

theorem not_recognizesAt_of_end (start : k ≤ i) (ended : isEndCode (code i) = true) {m : Nat}
    (beyond : i + 1 < m) : ¬a.RecognizesAt code holds k root m r := by
  rintro ⟨id, s, reached, _⟩
  have going := reached.inside start beyond
  rw [ended] at going
  cases going

end Ends

theorem Munches.unique {m m' : Match} (first : a.Munches code root m)
    (second : a.Munches code root m') : m = m' := by
  obtain ⟨r, n⟩ := m
  obtain ⟨r', n'⟩ := m'
  obtain ⟨⟨here, wins⟩, longest⟩ := first
  obtain ⟨⟨here', wins'⟩, longest'⟩ := second
  have same : n = n' := Nat.le_antisymm (longest' n r here) (longest n' r' here')
  subst same
  have ⟨p, priority⟩ := here.2
  have ⟨p', priority'⟩ := here'.2
  have even : p = p' := Nat.le_antisymm (wins r' p p' here' priority priority')
    (wins' r p' p here priority' priority)
  have one : r = r' := Recognition.eq_of_priority? priority (even ▸ priority')
  rw [one]

end Automaton

end GrammarMachine
