import GrammarMachine.Proofs.Grammar.Assembly
import GrammarMachine.Samples.Calculator

/-!
Halving finds what trying every entry in turn finds. In a checked table no two entries share a key,
so that there is one answer at most; what remains is the default of each table.
-/

namespace GrammarMachine

/-- Does the range hold `code`? -/
def CharRange.holds (r : CharRange) (code : Int32) : Bool := r.low ≤ code && code ≤ r.high

/-- Is the entry one for `terminal`? -/
def Action.covers (a : Action) (terminal : UInt32) : Bool := a.low ≤ terminal && terminal ≤ a.high

/-- Items of which no two pass a test together: one passes at most. -/
theorem countP_le_one_of_pairwise {α : Type} {test : α → Bool} {xs : List α}
    (apart : xs.Pairwise fun x y => ¬ (test x = true ∧ test y = true)) : xs.countP test ≤ 1 := by
  induction xs with
  | nil => simp
  | cons x rest ih =>
    obtain ⟨first, others⟩ := List.pairwise_cons.1 apart
    rw [List.countP_cons]
    split
    · next passes =>
      have none_left : rest.countP test = 0 :=
        List.countP_eq_zero.2 fun y mem later => first y mem ⟨passes, later⟩
      omega
    · exact ih others

namespace Search

variable {α β : Type} [LE β] [LT β] [DecidableLE β] [Std.IsLinearOrder β] [Std.LawfulOrderLT β]
  {low high : α → β} {key : β} {xs : Array α}

/-- At most one of the ranges in ascending order holds a key. -/
theorem countP_le_one (ordered : xs.toList.Pairwise fun x y => high x < low y) (key : β) :
    xs.countP (fun x => low x ≤ key && key ≤ high x) ≤ 1 := by
  rw [← Array.countP_toList]
  refine countP_le_one_of_pairwise (ordered.imp fun {x y} before ⟨inside, inside'⟩ => ?_)
  simp only [Bool.and_eq_true, decide_eq_true_eq] at inside inside'
  exact Std.not_lt.2 (Std.le_trans inside'.1 inside.2) before

/-- The last range that begins at a key or in front of it, if it reaches as far as the key, is the
one that holds the key. -/
theorem filter_lastPassing? (ordered : xs.toList.Pairwise fun x y => high x < low y)
    (proper : ∀ x ∈ xs, low x ≤ high x) (key : β) :
    (lastPassing? (fun x => decide (low x ≤ key)) xs).filter (fun x => key ≤ high x) =
      xs.find? fun x => low x ≤ key && key ≤ high x := by
  cases tried : xs.find? fun x => low x ≤ key && key ≤ high x with
  | some x =>
    have inside := Array.find?_some tried
    simp only [Bool.and_eq_true, decide_eq_true_eq] at inside
    rw [lastPassing?_eq_of_ascending ordered proper (Array.mem_of_find?_eq_some tried) inside.1
      inside.2, Option.filter_some, if_pos (decide_eq_true inside.2)]
  | none =>
    refine Option.filter_eq_none_iff.2 fun x passing below => ?_
    obtain ⟨mem, above⟩ := lastPassing?_eq_some passing
    have outside := Array.find?_eq_none.1 tried x mem
    simp only [above, below, Bool.and_self, not_true] at outside

end Search

theorem LexState.step?_eq_find? {s : LexState}
    (ordered : s.ranges.toList.Pairwise fun r r' => r.high < r'.low)
    (proper : ∀ r ∈ s.ranges, r.low ≤ r.high) (code : Int32) :
    s.step? code = (s.ranges.find? (·.holds code)).map CharRange.target := by
  have linear := Search.filter_lastPassing? ordered proper code
  simp only [CharRange.holds, ← linear, step?]
  cases Search.lastPassing? (fun (r : CharRange) => decide (r.low ≤ code)) s.ranges with
  | none => rfl
  | some r => by_cases inside : code ≤ r.high <;> simp [Option.filter_some, inside]

theorem ParserState.action?_eq_find? {s : ParserState}
    (ordered : s.declared.toList.Pairwise fun a a' => a.high < a'.low)
    (proper : ∀ a ∈ s.declared, a.low ≤ a.high) (terminal : UInt32) :
    s.action? terminal = (s.declared.find? (·.covers terminal)).or s.actions.back? := by
  have linear := Search.filter_lastPassing? ordered proper terminal
  simp only [Action.covers, ← linear, action?]
  cases Search.lastPassing? (fun (a : Action) => decide (a.low ≤ terminal)) s.declared with
  | none => rfl
  | some a => by_cases inside : terminal ≤ a.high <;> simp [Option.filter_some, inside]

namespace Nonterminal

theorem goto?_eq_none_iff {n : Nonterminal} {source : UInt32} :
    n.goto? source = none ↔ n.gotos = #[] := by
  unfold goto?
  split
  · next back => exact iff_of_true rfl (Array.back?_eq_none_iff.1 back)
  · next back =>
    refine iff_of_false ?_ fun empty => ?_
    · split <;> exact Option.some_ne_none _
    · rw [empty] at back
      cases back

theorem goto?_eq_find? {n : Nonterminal}
    (ordered : n.gotos.toList.Pairwise fun pair pair' => pair.source < pair'.source)
    (source : UInt32) : n.goto? source =
      ((n.gotos.find? (·.source == source)).or n.gotos.back?).map Goto.target := by
  cases tried : n.gotos.find? (·.source == source) with
  | some pair =>
    have same := Array.find?_some tried
    rw [← eq_of_beq same, goto?_of_ascending ordered (Array.mem_of_find?_eq_some tried)]
    rfl
  | none =>
    have absent : Search.find? Goto.source source n.gotos.pop = none := by
      refine Option.eq_none_iff_forall_not_mem.2 fun pair found => ?_
      have mem := Array.mem_toList_iff.2 (Search.mem_of_find? found)
      rw [Array.toList_pop] at mem
      have other := Array.find?_eq_none.1 tried pair
        (Array.mem_toList_iff.1 ((List.dropLast_sublist _).subset mem))
      exact other (beq_iff_eq.2 (Search.key_of_find? found))
    rw [goto?, absent]
    cases n.gotos.back? <;> rfl

end Nonterminal

/-- In a checked grammar every look-up answers as if all entries were tried in turn, of which one
at most holds the key: a character leads through the range that holds it and nowhere else, a
terminal is served by the entry that covers it and is an error otherwise, and a source leads where
its pair does, and where the last pair does if it has none of its own. -/
theorem lookups_are_linear {g : Grammar} (valid : g.check = .ok ()) :
    (∀ s, s ∈ g.lexer.states ∨ s ∈ g.comments.states → ∀ code : Int32,
      s.ranges.countP (·.holds code) ≤ 1 ∧
      s.step? code = (s.ranges.find? (·.holds code)).map CharRange.target) ∧
    (∀ s ∈ g.states, ∃ last, s.actions.back? = some last ∧ last.kind = .error ∧
      ∀ terminal : UInt32,
        s.declared.countP (·.covers terminal) ≤ 1 ∧
        s.action? terminal = some ((s.declared.find? (·.covers terminal)).getD last)) ∧
    ∀ n ∈ g.nonterminals, ∀ source : UInt32,
      n.gotos.countP (·.source == source) ≤ 1 ∧
      n.goto? source =
        ((n.gotos.find? (·.source == source)).or n.gotos.back?).map Goto.target ∧
      (n.goto? source = none ↔ n.gotos = #[]) := by
  have formed := Grammar.wellFormed_of_check valid
  refine ⟨fun s mem code => ?_, fun s mem => ?_, fun n mem source => ?_⟩
  · have lexical : ∃ a part tokens, s.WellFormed a part tokens :=
      mem.elim (fun mem => ⟨_, _, _, formed.lexer s mem⟩)
        fun mem => ⟨_, _, _, formed.comments s mem⟩
    obtain ⟨_, _, _, lexical⟩ := lexical
    exact ⟨Search.countP_le_one lexical.apart code,
      LexState.step?_eq_find? lexical.apart lexical.proper code⟩
  · have state := formed.states s mem
    obtain ⟨last, back, kind⟩ := state.catchAll
    refine ⟨last, back, kind, fun terminal => ⟨Search.countP_le_one state.apart terminal, ?_⟩⟩
    rw [ParserState.action?_eq_find? state.apart state.proper, back, Option.or_some]
  · have ascending := (formed.nonterminals n mem).ascending
    refine ⟨?_, Nonterminal.goto?_eq_find? ascending source, Nonterminal.goto?_eq_none_iff⟩
    rw [← Array.countP_toList]
    refine countP_le_one_of_pairwise (ascending.imp fun {_ _} before ⟨own, own'⟩ => ?_)
    rw [eq_of_beq own, eq_of_beq own'] at before
    exact Std.lt_irrefl before

section Example

open Samples.Calculator

/-- A digit and a letter at the start of a token, a product sign and a blank behind a term, and a
term in two states: the last pair is that of the first, and the second has none. -/
theorem calculator_lookups_are_linear : (grammar .hard).check = .ok () ∧
    (∀ s ∈ lexer.states[0]?, s.step? (Text.code '7') = some 7 ∧ s.step? (Text.code 'x') = none) ∧
    (∀ s ∈ states[2]?, s.action? star = some (.shift star star 7) ∧
      s.action? blank = some .catchAll) ∧
    ∀ n ∈ (grammar .hard).nonterminals[term.toNat]?, n.goto? 6 = some 9 ∧ n.goto? 3 = some 9 := by
  have valid : (grammar .hard).check = .ok () := eq_ok_of_toOption (by decide +kernel)
  obtain ⟨lexical, syntactic, gotos⟩ := lookups_are_linear valid
  refine ⟨valid, fun s there => ?_, fun s there => ?_, fun n there => ?_⟩
  · have linear := lexical s (.inl (Array.mem_of_getElem? there))
    cases there
    exact ⟨(linear _).2.trans (by decide +kernel), (linear _).2.trans (by decide +kernel)⟩
  · obtain ⟨last, back, -, linear⟩ := syntactic s (Array.mem_of_getElem? there)
    cases there
    have back := (Option.some.inj back).symm
    subst back
    exact ⟨(linear _).2.trans (by decide +kernel), (linear _).2.trans (by decide +kernel)⟩
  · have linear := gotos n (Array.mem_of_getElem? there)
    cases there
    exact ⟨(linear _).2.1.trans (by decide +kernel), (linear _).2.1.trans (by decide +kernel)⟩

end Example

end GrammarMachine
