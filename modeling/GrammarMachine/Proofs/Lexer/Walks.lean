import GrammarMachine.Grammar.Assembly
import GrammarMachine.Proofs.Lexer.Memoryless
import GrammarMachine.Proofs.Text.Scalar

/-!
Characters ahead, and automata without empty transitions in front of them. Such an automaton walks
from one state to the next, a character at a time, until there is no transition; so a scan answers
with what the last state of the walk recognizes, if the states in front of it recognize nothing
that goes further.
-/

namespace GrammarMachine

namespace Reading

/-- The null character ends a text, and no other does. -/
theorem isEnd_ofChar (c : Char) : (ofChar c).isEnd = decide (c = '\x00') := by
  have open_ : (Text.code c == endCode) = false := by
    rw [beq_eq_false_iff_ne]
    intro same
    exact Text.not_code_le_endCode c (Int32.le_of_eq same)
  rw [isEnd, isEndCode, ofChar, open_, Bool.false_or]
  by_cases null : c = '\x00'
  · subst null
    rfl
  · rw [decide_eq_false null, beq_eq_false_iff_ne]
    exact fun same => null (Text.code_inj (d := '\x00') same)

theorem letter?_ofChar {c : Char} (letter : c ≠ '\x00') : (ofChar c).letter? = some c := by
  have above : 0 < (ofChar c).code := by
    rw [Int32.lt_iff_toInt_lt]
    change 0 < (Text.code c).toInt
    have code := Text.toInt_code c
    have other : c.toNat ≠ 0 := fun zero => letter (Char.toNat_inj.1 zero)
    omega
  rw [letter?, if_pos above]
  exact Text.scalar?_val c

/-- What is read of some characters, and of the end of text behind them. -/
def ofChars (null : Bool) (cs : List Char) : Nat → Reading :=
  Source.upcoming (ending null) (cs.map ofChar)

variable {null : Bool} {p cs : List Char}

theorem ofChars_succ {c : Char} (letter : c ≠ '\x00') (i : Nat) :
    ofChars null (c :: cs) (i + 1) = ofChars null cs i := by
  rw [ofChars, List.map_cons, Source.upcoming, isEnd_ofChar, decide_eq_false letter]
  rfl

theorem ofChars_append (letters : '\x00' ∉ p) (i : Nat) :
    ofChars null (p ++ cs) (p.length + i) = ofChars null cs i := by
  induction p with
  | nil => rw [List.nil_append, List.length_nil, Nat.zero_add]
  | cons c p ih =>
    rw [List.mem_cons, not_or] at letters
    rw [List.cons_append, List.length_cons, Nat.add_right_comm,
      ofChars_succ (Ne.symm letters.1), ih letters.2]

theorem ofChars_lt (letters : '\x00' ∉ p) {i : Nat} {c : Char} (here : p[i]? = some c) :
    ofChars null (p ++ cs) i = ofChar c := by
  induction p generalizing i with
  | nil => cases here
  | cons d p ih =>
    rw [List.mem_cons, not_or] at letters
    cases i with
    | zero =>
      cases here
      rfl
    | succ i =>
      rw [List.cons_append, ofChars_succ (Ne.symm letters.1)]
      exact ih letters.2 here

end Reading

namespace LexState

variable {recognized : Recognition} {epsilons : List Epsilon}
  {ranges : List (Char × Char × UInt32)} {target : UInt32}

theorem moves_ofRanges_iff (c : Char) :
    (ofRanges recognized epsilons ranges).Moves (Text.code c) target ↔
    ∃ r ∈ ranges, r.1 ≤ c ∧ c ≤ r.2.1 ∧ r.2.2 = target := by
  simp only [Moves, ofRanges, List.mem_toArray, (Ascending.sort_perm _ _).mem_iff, List.mem_map,
    exists_exists_and_eq_and, Text.code_le_code_iff]

theorem not_moves_ofRanges_end : ¬(ofRanges recognized epsilons ranges).Moves endCode target := by
  simp only [Moves, ofRanges, List.mem_toArray, (Ascending.sort_perm _ _).mem_iff, List.mem_map,
    exists_exists_and_eq_and, Text.not_code_le_endCode, false_and, and_false, exists_const,
    not_false_eq_true]

/-- A transition on the end of text changes nothing about characters. -/
theorem moves_onEndOfText_iff (s : LexState) (other : UInt32) (c : Char) :
    (s.onEndOfText other).Moves (Text.code c) target ↔ s.Moves (Text.code c) target := by
  simp [Moves, onEndOfText, Text.not_code_le_endCode]

end LexState

namespace Automaton

variable {a : Automaton} {root id id' : UInt32} {p rest : List Char} {null : Bool} {s : LexState}

/-- The transitions on the characters `p` lead from `root` to `id`. -/
inductive Walks (a : Automaton) (root : UInt32) : List Char → UInt32 → Prop
  | nil : Walks a root [] root
  | snoc {p : List Char} {id target : UInt32} {s : LexState} {c : Char} (walks : Walks a root p id)
      (here : a.states[id.toNat]? = some s) (moves : s.Moves (Text.code c) target) :
      Walks a root (p ++ [c]) target

/-- A state that some characters lead back to is kept over all of them. -/
theorem Walks.append_loop (walks : a.Walks root p id) (here : a.states[id.toNat]? = some s)
    {q : List Char} (loops : ∀ c ∈ q, s.Moves (Text.code c) id) : a.Walks root (p ++ q) id := by
  induction q generalizing p with
  | nil => rwa [List.append_nil]
  | cons c q ih =>
    rw [List.append_cons]
    obtain ⟨first, others⟩ := List.forall_mem_cons.1 loops
    exact ih (walks.snoc here first) others

theorem Walks.unique (closed : a.Closed) (first : a.Walks root p id)
    (second : a.Walks root p id') : id = id' := by
  induction first generalizing id' with
  | nil =>
    generalize empty : ([] : List Char) = p at second
    cases second with
    | nil => rfl
    | snoc => simp at empty
  | @snoc p id target s c walks here moves ih =>
    generalize same : p ++ [c] = q at second
    cases second with
    | nil => simp at same
    | snoc walks' here' moves' =>
      obtain ⟨rfl, last⟩ := List.append_inj' same rfl
      cases last
      obtain rfl := ih walks'
      cases here.symm.trans here'
      have mem := Array.mem_of_getElem? here
      exact Option.some.inj (((closed.found s mem _ _).2 moves).symm.trans
        ((closed.found s mem _ _).2 moves'))

/-- The codes ahead of a text. -/
abbrev codes (null : Bool) (cs : List Char) (i : Nat) : Int32 := (Reading.ofChars null cs i).code

theorem isEndCode_codes (letters : '\x00' ∉ p) {i : Nat} (lt : i < p.length) :
    isEndCode (codes null (p ++ rest) i) = false := by
  have letter : p[i] ≠ '\x00' := fun same => letters (same ▸ List.getElem_mem lt)
  rw [codes, Reading.ofChars_lt letters (List.getElem?_eq_getElem lt)]
  exact (Reading.isEnd_ofChar _).trans (decide_eq_false letter)

theorem Walks.reaches {holds : Nat → UInt32 → Prop} (walks : a.Walks root p id)
    (letters : '\x00' ∉ p) : a.Reaches (codes null (p ++ rest)) holds 0 root p.length id := by
  induction walks generalizing rest with
  | nil => exact .root
  | @snoc p id target s c walks here moves ih =>
    have front : '\x00' ∉ p := fun mem => letters (List.mem_append_left _ mem)
    rw [List.append_assoc, List.length_append, List.singleton_append, List.length_singleton]
    refine .range (ih front) (fun j _ lt => isEndCode_codes front lt) here ?_
    rwa [codes, ← Nat.add_zero p.length, Reading.ofChars_append front]

/-- Without empty transitions, what is reached is walked to. -/
theorem walks_of_reaches {holds : Nat → UInt32 → Prop} (plain : ∀ s ∈ a.states, s.epsilons = [])
    (letters : '\x00' ∉ p) {i : Nat}
    (reached : a.Reaches (codes null (p ++ rest)) holds 0 root i id)
    (le : i ≤ p.length) : a.Walks root (p.take i) id := by
  induction reached with
  | root => exact .nil
  | @range i id target s reached before here moves ih =>
    have lt : i < p.length := le
    rw [codes, Reading.ofChars_lt letters (List.getElem?_eq_getElem lt)] at moves
    rw [← List.take_append_getElem lt]
    exact (ih (by omega)).snoc here moves
  | @epsilon i id s e _ here mem _ _ =>
    rw [plain s (Array.mem_of_getElem? here)] at mem
    cases mem

section Answers

variable (closed : a.Closed) (plain : ∀ s ∈ a.states, s.epsilons = []) (letters : '\x00' ∉ p)
  (walks : a.Walks root p id) (here : a.states[id.toNat]? = some s)
  (stops : ∀ target, ¬s.Moves (codes null rest 0) target)

include closed plain letters walks here stops

theorem le_of_recognizes {i : Nat} {r : Recognition}
    (recognized : a.Recognizes (codes null (p ++ rest)) root i r) : i ≤ p.length := by
  obtain ⟨⟨id', _, reached, _, _⟩, _⟩ := recognized
  refine Nat.le_of_not_lt fun beyond => ?_
  -- A run that goes further has a transition behind the walk.
  obtain ⟨next, there⟩ := reached.passes (j := p.length + 1) (Nat.zero_le _) (by omega)
  generalize place : p.length + 1 = j at there
  induction there with
  | root => omega
  | @range i before_id target s' reached' before here' moves _ =>
    obtain rfl : p.length = i := by omega
    have same := walks_of_reaches plain letters reached' (Nat.le_refl _)
    rw [List.take_length] at same
    obtain rfl := walks.unique closed same
    cases here.symm.trans here'
    rw [codes, ← Nat.add_zero p.length, Reading.ofChars_append letters] at moves
    exact stops _ moves
  | @epsilon i id s e _ here mem _ _ =>
    rw [plain s (Array.mem_of_getElem? here)] at mem
    cases mem

/-- The last state of a walk that cannot go on gives the answer, if it recognizes something. -/
theorem answers_of_walks {k : Nat} (priority : s.recognized.priority? = some k) :
    a.Answers (codes null (p ++ rest)) root (some ⟨s.recognized, p.length⟩) := by
  have recognizes : a.Recognizes (codes null (p ++ rest)) root p.length s.recognized :=
    ⟨⟨id, s, walks.reaches letters, here, rfl⟩, k, priority⟩
  have munches : a.Munches (codes null (p ++ rest)) root ⟨s.recognized, p.length⟩ := by
    refine ⟨⟨recognizes, fun r q q' other first second => ?_⟩, fun n r other =>
      le_of_recognizes closed plain letters walks here stops other⟩
    obtain ⟨⟨id', s', reached, here', rfl⟩, _⟩ := other
    have same := walks_of_reaches plain letters reached (Nat.le_refl _)
    rw [List.take_length] at same
    obtain rfl := walks.unique closed same
    cases here.symm.trans here'
    exact Nat.le_of_eq (Option.some.inj (first.symm.trans second))
  refine ⟨fun m => ⟨?_, fun other => congrArg some (munches.unique other)⟩, nofun, fun none => ?_⟩
  · rintro ⟨⟩
    exact munches
  · exact absurd recognizes (none _ _)

/-- Where no state of the walk recognizes anything, there is no match. -/
theorem answers_none_of_walks (silent : ∀ i id' s', a.Walks root (p.take i) id' →
    a.states[id'.toNat]? = some s' → s'.recognized.priority? = none) :
    a.Answers (codes null (p ++ rest)) root none := by
  have nothing : ∀ n r, ¬a.Recognizes (codes null (p ++ rest)) root n r := by
    intro n r recognized
    have le := le_of_recognizes closed plain letters walks here stops recognized
    obtain ⟨⟨id', s', reached, here', rfl⟩, k, priority⟩ := recognized
    rw [silent n id' s' (walks_of_reaches plain letters reached le) here'] at priority
    cases priority
  exact ⟨fun m => ⟨nofun, fun munches => absurd munches.1.1 (nothing _ _)⟩, fun _ => nothing,
    fun _ => rfl⟩

end Answers

end Automaton

namespace Cursor

variable {c d : Cursor} {null : Bool} {cs p : List Char}

/-- The cursor is in front of these characters and the end of text. -/
structure Faces (null : Bool) (c : Cursor) (cs : List Char) : Prop where
  placed : c.Placed
  ahead : c.ahead = Reading.ofChars null cs

theorem faces_start (text : String) (null : Bool) :
    (Cursor.start (.ofText text null)).Faces null text.toList := by
  refine ⟨placed_start _, funext fun i => ?_⟩
  exact (Source.lays_ofText text null).readAt_reach (Reading.isEnd_ending null) i

theorem Faces.peeked (faces : c.Faces null cs) (peeked : c.Peeked d) : d.Faces null cs :=
  ⟨faces.placed.peeked peeked, (ahead_of_agrees peeked.1).trans faces.ahead⟩

theorem Faces.head (faces : c.Faces null cs) : c.head = .ok (Reading.ofChars null cs 0) := by
  obtain ⟨_, found, read⟩ := yields_head faces.placed.faithful
  exact found.trans (congrArg _ (read.trans (congrFun faces.ahead 0)))

/-- Consuming takes characters off the front. -/
theorem Faces.consume (faces : c.Faces null (p ++ cs)) (letters : '\x00' ∉ p) (some : p ≠ []) :
    Yields (c.consume p.length) fun d => d.Faces null cs := by
  have going : (c.ahead 0).isEnd = false := by
    rw [faces.ahead]
    exact Automaton.isEndCode_codes letters (List.length_pos_of_ne_nil some)
  refine (faces.placed.consume going p.length).mono fun d ⟨placed, _, ahead⟩ => ⟨placed, ?_⟩
  rw [ahead, faces.ahead]
  exact funext fun i => Reading.ofChars_append letters i

theorem filterMap_getElem?_range (p : List Char) :
    (List.range p.length).filterMap (fun i => p[i]?) = p := by
  induction p with
  | nil => rfl
  | cons c p ih =>
    rw [List.length_cons, List.range_succ_eq_map, List.filterMap_cons, List.filterMap_map]
    exact congrArg (c :: ·) ih

/-- The text of characters that have been seen is spelled by them. -/
theorem Faces.text (faces : c.Faces null (p ++ cs)) (letters : '\x00' ∉ p)
    (seen : c.Seen p.length) : c.text p.length = String.ofList p := by
  rw [text_eq faces.placed.faithful seen, faces.ahead]
  congr 1
  have each : ∀ i ∈ List.range p.length, (Reading.ofChars null (p ++ cs) i).letter? = p[i]? := by
    intro i mem
    have lt := List.mem_range.1 mem
    have letter : p[i] ≠ '\x00' := fun same => letters (same ▸ List.getElem_mem lt)
    rw [List.getElem?_eq_getElem lt,
      Reading.ofChars_lt letters (List.getElem?_eq_getElem lt), Reading.letter?_ofChar letter]
  rw [List.filterMap_congr each, filterMap_getElem?_range]

end Cursor

end GrammarMachine
