import GrammarMachine.Grammar.Check
import GrammarMachine.Proofs.Success

/-!
The grammars that pass their checks. What has to hold is said of whole lists: every number names
something that is there, and of two ranges or pairs the one in front ends before the other begins.
The checks compare neighbours only; a range that is proper hands the bound on, so that the first
defect found is the absence of all.
-/

namespace GrammarMachine

section Lists

variable {α ε δ : Type}

theorem checkEach_eq_ok_iff {check : α → Except ε Unit} {xs : List α} :
    checkEach check xs = .ok () ↔ ∀ x ∈ xs, check x = .ok () := by
  induction xs with
  | nil => simp [checkEach]
  | cons x rest ih =>
    simp only [checkEach, bind_unit_eq_ok_iff, ih, List.forall_mem_cons]

theorem checkFrom_eq_ok_iff {check : Nat → α → Except ε Unit} {i : Nat} {xs : List α} :
    checkFrom check i xs = .ok () ↔ ∀ j x, xs[j]? = some x → check (i + j) x = .ok () := by
  induction xs generalizing i with
  | nil => simp [checkFrom]
  | cons x rest ih =>
    simp only [checkFrom, bind_unit_eq_ok_iff, ih]
    constructor
    · rintro ⟨first, others⟩ (_ | j) y at_j
      · cases at_j
        exact first
      · have next := others j y at_j
        rwa [Nat.add_right_comm] at next
    · intro all
      refine ⟨all 0 x rfl, fun j y at_j => ?_⟩
      rw [Nat.add_right_comm]
      exact all (j + 1) y at_j

theorem within_eq_ok_iff {wrap : ε → δ} {x : Except ε Unit} :
    within wrap x = .ok () ↔ x = .ok () := by
  cases x <;> simp [within]

/-- A check of numbered items whose verdict does not hang on the number is a check of each. -/
theorem checkFrom_eq_ok_iff_forall_mem {check : Nat → α → Except ε Unit} {xs : Array α}
    {P : α → Prop} (each : ∀ i x, check i x = .ok () ↔ P x) :
    checkFrom check 0 xs.toList = .ok () ↔ ∀ x ∈ xs, P x := by
  simp only [checkFrom_eq_ok_iff, each, Array.getElem?_toList, Array.mem_iff_getElem?]
  exact ⟨fun all x ⟨j, at_j⟩ => all j x at_j, fun all j x at_j => all x ⟨j, at_j⟩⟩

end Lists

section Order

variable {α β : Type} [LT β] {low high : α → β} {last : Option β} {x : α} {rest : List α}

/-- One item behind the other: each begins behind the end of all in front of it, the first one
behind `last`. -/
def Rises (low high : α → β) (last : Option β) (xs : List α) : Prop :=
  (∀ x ∈ xs, ∀ bound ∈ last, bound < low x) ∧ xs.Pairwise fun x y => high x < low y

theorem rises_none {xs : List α} :
    Rises low high none xs ↔ xs.Pairwise fun x y => high x < low y := by
  simp [Rises]

variable [LE β] [DecidableLE β] [Std.IsLinearOrder β] [Std.LawfulOrderLT β]

theorem meets_eq_false_iff {b : β} : meets last b = false ↔ ∀ bound ∈ last, bound < b := by
  cases last <;> simp [meets, Std.not_le]

/-- An item that is proper hands the bound on. -/
theorem rises_cons (proper : low x ≤ high x) :
    Rises low high last (x :: rest) ↔
      meets last (low x) = false ∧ Rises low high (some (high x)) rest := by
  simp only [Rises, meets_eq_false_iff, List.forall_mem_cons, List.pairwise_cons,
    Option.mem_some_iff]
  constructor
  · rintro ⟨⟨first, _⟩, behind, others⟩
    refine ⟨first, fun y mem bound same => ?_, others⟩
    exact same ▸ behind y mem
  · rintro ⟨first, behind, others⟩
    have next : ∀ y ∈ rest, high x < low y := fun y mem => behind y mem _ rfl
    refine ⟨⟨first, fun y mem bound inside => ?_⟩, next, others⟩
    exact Std.lt_trans (Std.lt_of_lt_of_le (first bound inside) proper) (next y mem)

end Order

/-- What a lexical state may recognize: a token of the grammar, or anything that is none; and within
comments one of their classes, the end of a continuation, or nothing. -/
def Part.Admits (tokens : Nat) : Part → Recognition → Prop
  | .lexer, r => ∀ id, r = .token id → id.toNat < tokens
  | .comment, r => r = .nothing ∨ r = .followAccept ∨ ∃ id, r = .token id ∧ id ≤ commentEof

namespace LexState

structure WellFormed (a : Automaton) (part : Part) (tokens : Nat) (s : LexState) : Prop where
  recognized : part.Admits tokens s.recognized
  epsilon : ∀ e ∈ s.epsilons, e.target.toNat < a.states.size
  continuation : ∀ e ∈ s.epsilons, ∀ root, e.continuation = some root →
    root.toNat < a.states.size ∧ 0 < a.maxDepth
  target : ∀ r ∈ s.ranges, r.target.toNat < a.states.size
  proper : ∀ r ∈ s.ranges, r.low ≤ r.high
  apart : s.ranges.toList.Pairwise fun r r' => r.high < r'.low

theorem checkRecognition_eq_ok_iff {part : Part} {tokens : Nat} {r : Recognition} :
    checkRecognition part tokens r = .ok () ↔ part.Admits tokens r := by
  cases part <;> cases r <;> simp [checkRecognition, Part.Admits]

theorem checkEpsilon_eq_ok_iff {a : Automaton} {e : Epsilon} :
    checkEpsilon a e = .ok () ↔ e.target.toNat < a.states.size ∧
      ∀ root, e.continuation = some root → root.toNat < a.states.size ∧ 0 < a.maxDepth := by
  obtain ⟨target, continuation⟩ := e
  cases continuation with
  | none => simp [checkEpsilon, bind_unit_eq_ok_iff]
  | some root =>
    simp [checkEpsilon, bind_unit_eq_ok_iff, UInt32.pos_iff_ne_zero, and_assoc]

theorem checkRanges_eq_ok_iff {states : Nat} {last : Option Int32} {rs : List CharRange} :
    checkRanges states last rs = .ok () ↔
      (∀ r ∈ rs, r.target.toNat < states ∧ r.low ≤ r.high) ∧
        Rises CharRange.low CharRange.high last rs := by
  induction rs generalizing last with
  | nil => simp [checkRanges, Rises]
  | cons r rest ih =>
    simp only [checkRanges, bind_unit_eq_ok_iff, refuse_eq_ok_iff, decide_eq_false_iff_not,
      Nat.not_le, Bool.or_eq_false_iff, Int32.not_lt, ih, List.forall_mem_cons]
    constructor
    · rintro ⟨target, ⟨proper, first⟩, others, rises⟩
      exact ⟨⟨⟨target, proper⟩, others⟩, (rises_cons proper).2 ⟨first, rises⟩⟩
    · rintro ⟨⟨⟨target, proper⟩, others⟩, rises⟩
      obtain ⟨first, rises⟩ := (rises_cons proper).1 rises
      exact ⟨target, ⟨proper, first⟩, others, rises⟩

theorem check_eq_ok_iff {a : Automaton} {part : Part} {tokens : Nat} {s : LexState} :
    s.check a part tokens = .ok () ↔ s.WellFormed a part tokens := by
  simp only [check, bind_unit_eq_ok_iff, checkRecognition_eq_ok_iff, checkEach_eq_ok_iff,
    checkEpsilon_eq_ok_iff, checkRanges_eq_ok_iff, rises_none, Array.mem_toList_iff]
  constructor
  · rintro ⟨recognized, epsilons, ranges, apart⟩
    exact ⟨recognized, fun e mem => (epsilons e mem).1, fun e mem => (epsilons e mem).2,
      fun r mem => (ranges r mem).1, fun r mem => (ranges r mem).2, apart⟩
  · rintro ⟨recognized, epsilon, continuation, target, proper, apart⟩
    exact ⟨recognized, fun e mem => ⟨epsilon e mem, continuation e mem⟩,
      fun r mem => ⟨target r mem, proper r mem⟩, apart⟩

end LexState

namespace Automaton

def WellFormed (a : Automaton) (part : Part) (tokens : Nat) : Prop :=
  ∀ s ∈ a.states, s.WellFormed a part tokens

theorem isEmpty_eq_false_iff {a : Automaton} : a.isEmpty = false ↔ 0 < a.states.size := by
  rw [isEmpty, Array.isEmpty_eq_false_iff, Array.size_pos_iff]

theorem check_eq_ok_iff {a : Automaton} {part : Part} {tokens : Nat} :
    a.check part tokens = .ok () ↔ a.WellFormed part tokens :=
  checkFrom_eq_ok_iff_forall_mem fun _ _ => within_eq_ok_iff.trans LexState.check_eq_ok_iff

end Automaton

namespace ParserState

structure WellFormed (g : Grammar) (s : ParserState) : Prop where
  catchAll : ∃ last, s.actions.back? = some last ∧ last.kind = .error
  proper : ∀ a ∈ s.declared, a.low ≤ a.high
  terminal : ∀ a ∈ s.declared, a.high.toNat < g.tokens.size
  apart : s.declared.toList.Pairwise fun a a' => a.high < a'.low
  shift : ∀ a ∈ s.declared, a.kind = .shift → a.aux.toNat < g.states.size
  reduce : ∀ a ∈ s.declared, a.kind = .reduce → a.aux.toNat < g.rules.size

theorem reaches_iff {states rules : Nat} {a : Action} :
    reaches states rules a = true ↔
      (a.kind = .shift → a.aux.toNat < states) ∧ (a.kind = .reduce → a.aux.toNat < rules) := by
  unfold reaches
  cases a.kind <;> simp

theorem checkActions_eq_ok_iff {g : Grammar} {last : Option UInt32} {as : List Action} :
    checkActions g last as = .ok () ↔
      (∀ a ∈ as, a.low ≤ a.high ∧ a.high.toNat < g.tokens.size ∧
        reaches g.states.size g.rules.size a = true) ∧
      Rises Action.low Action.high last as := by
  induction as generalizing last with
  | nil => simp [checkActions, Rises]
  | cons a rest ih =>
    simp only [checkActions, bind_unit_eq_ok_iff, refuse_eq_ok_iff, decide_eq_false_iff_not,
      Nat.not_le, Bool.or_eq_false_iff, UInt32.not_lt, Bool.not_eq_false', ih, List.forall_mem_cons]
    constructor
    · rintro ⟨⟨proper, first⟩, terminal, leads, others, rises⟩
      exact ⟨⟨⟨proper, terminal, leads⟩, others⟩, (rises_cons proper).2 ⟨first, rises⟩⟩
    · rintro ⟨⟨⟨proper, terminal, leads⟩, others⟩, rises⟩
      obtain ⟨first, rises⟩ := (rises_cons proper).1 rises
      exact ⟨⟨proper, first⟩, terminal, leads, others, rises⟩

theorem check_eq_ok_iff {g : Grammar} {s : ParserState} :
    s.check g = .ok () ↔ s.WellFormed g := by
  unfold check
  cases back : s.actions.back? with
  | none =>
    refine iff_of_false nofun fun formed => ?_
    obtain ⟨_, there, _⟩ := formed.catchAll
    cases back.symm.trans there
  | some last =>
    simp only [bind_unit_eq_ok_iff, refuse_eq_ok_iff, bne_eq_false_iff_eq, checkActions_eq_ok_iff,
      rises_none, reaches_iff, Array.mem_toList_iff]
    constructor
    · rintro ⟨kind, each, apart⟩
      exact ⟨⟨last, back, kind⟩, fun a mem => (each a mem).1, fun a mem => (each a mem).2.1, apart,
        fun a mem => (each a mem).2.2.1, fun a mem => (each a mem).2.2.2⟩
    · rintro ⟨⟨_, there, kind⟩, proper, terminal, apart, shift, reduce⟩
      cases back.symm.trans there
      exact ⟨kind, fun a mem => ⟨proper a mem, terminal a mem, shift a mem, reduce a mem⟩, apart⟩

end ParserState

namespace Nonterminal

structure WellFormed (g : Grammar) (n : Nonterminal) : Prop where
  source : ∀ pair ∈ n.gotos, pair.source.toNat < g.states.size
  target : ∀ pair ∈ n.gotos, pair.target.toNat < g.states.size
  ascending : n.gotos.toList.Pairwise fun pair pair' => pair.source < pair'.source

theorem checkGotos_eq_ok_iff {g : Grammar} {index : Nat} {last : Option UInt32}
    {pairs : List Goto} :
    checkGotos g index last pairs = .ok () ↔
      (∀ pair ∈ pairs, pair.source.toNat < g.states.size ∧ pair.target.toNat < g.states.size) ∧
        Rises Goto.source Goto.source last pairs := by
  induction pairs generalizing last with
  | nil => simp [checkGotos, Rises]
  | cons pair rest ih =>
    simp only [checkGotos, bind_unit_eq_ok_iff, refuse_eq_ok_iff, Bool.or_eq_false_iff,
      decide_eq_false_iff_not, Nat.not_le, ih, List.forall_mem_cons,
      rises_cons (UInt32.le_refl pair.source)]
    constructor
    · rintro ⟨inside, first, others, rises⟩
      exact ⟨⟨inside, others⟩, first, rises⟩
    · rintro ⟨⟨inside, others⟩, first, rises⟩
      exact ⟨inside, first, others, rises⟩

theorem checkGotos_eq_ok_iff_wellFormed {g : Grammar} {index : Nat} {n : Nonterminal} :
    checkGotos g index none n.gotos.toList = .ok () ↔ n.WellFormed g := by
  simp only [checkGotos_eq_ok_iff, rises_none, Array.mem_toList_iff]
  constructor
  · rintro ⟨each, ascending⟩
    exact ⟨fun pair mem => (each pair mem).1, fun pair mem => (each pair mem).2, ascending⟩
  · rintro ⟨source, target, ascending⟩
    exact ⟨fun pair mem => ⟨source pair mem, target pair mem⟩, ascending⟩

end Nonterminal

namespace Rule

structure WellFormed (g : Grammar) (r : Rule) : Prop where
  lhs : r.lhs.toNat < g.nonterminals.size
  depth : ∀ a ∈ r.actions, ∀ s ∈ a.target :: a.params, s.depth ≤ r.length
  target : ∀ a ∈ r.actions, a.target.depth = 0 → ∀ n, g.nonterminals[r.lhs.toNat]? = some n →
    a.target.index.toNat < n.attributeCount
  copy : ∀ a ∈ r.actions, a.isCopy = true → a.params.length = 1

theorem checkAction_eq_ok_iff {attributes : Nat} {r : Rule} {a : SemanticAction} :
    checkAction attributes r a = .ok () ↔ (∀ s ∈ a.target :: a.params, s.depth ≤ r.length) ∧
      (a.target.depth = 0 → a.target.index.toNat < attributes) ∧
      (a.isCopy = true → a.params.length = 1) := by
  simp only [checkAction, bind_unit_eq_ok_iff, checkEach_eq_ok_iff, refuse_eq_ok_iff,
    decide_eq_false_iff_not, UInt32.not_lt]
  refine and_congr_right fun _ => and_congr ?_ ?_
  · by_cases zero : a.target.depth = 0 <;> simp [zero]
  · by_cases copy : a.isCopy = true <;> simp [copy]

theorem check_eq_ok_iff {g : Grammar} {r : Rule} : r.check g = .ok () ↔ r.WellFormed g := by
  unfold check
  cases found : g.nonterminals[r.lhs.toNat]? with
  | none =>
    refine iff_of_false nofun fun formed => ?_
    exact Nat.not_lt.2 (Array.getElem?_eq_none_iff.1 found) formed.lhs
  | some n =>
    simp only [checkEach_eq_ok_iff, checkAction_eq_ok_iff, Array.mem_toList_iff]
    constructor
    · intro each
      refine ⟨(Array.getElem?_eq_some_iff.1 found).1, fun a mem => (each a mem).1, ?_,
        fun a mem => (each a mem).2.2⟩
      intro a mem zero n' there
      cases found.symm.trans there
      exact (each a mem).2.1 zero
    · rintro ⟨_, depth, target, copy⟩ a mem
      exact ⟨depth a mem, fun zero => target a mem zero n found, copy a mem⟩

end Rule

namespace Recovery

structure WellFormed (g : Grammar) (r : Recovery) : Prop where
  terminal : r.terminal.toNat < g.tokens.size
  state : ∀ e ∈ r.entries, e.state.toNat < g.states.size
  nonterminal : ∀ e ∈ r.entries, e.nonterminal.toNat < g.nonterminals.size

theorem check_eq_ok_iff {g : Grammar} {r : Recovery} : r.check g = .ok () ↔ r.WellFormed g := by
  simp only [check, bind_unit_eq_ok_iff, checkEach_eq_ok_iff, refuse_eq_ok_iff,
    Bool.or_eq_false_iff, decide_eq_false_iff_not, Nat.not_le]
  constructor
  · rintro ⟨terminal, each⟩
    exact ⟨terminal, fun e mem => (each e mem).1, fun e mem => (each e mem).2⟩
  · rintro ⟨terminal, state, nonterminal⟩
    exact ⟨terminal, fun e mem => ⟨state e mem, nonterminal e mem⟩⟩

end Recovery

/-- What a grammar has to satisfy before it is run. -/
structure Grammar.WellFormed (g : Grammar) : Prop where
  tokens : 0 < g.tokens.size
  names : ∀ t ∈ g.tokens, t.name ≠ some ""
  lexer_root : 0 < g.lexer.states.size
  lexer : g.lexer.WellFormed .lexer g.tokens.size
  comments : g.comments.WellFormed .comment g.tokens.size
  comments_root : ∀ s ∈ g.lexer.states, s.recognized = .commentStart → 0 < g.comments.states.size
  root : 0 < g.states.size
  states : ∀ s ∈ g.states, s.WellFormed g
  nonterminals : ∀ n ∈ g.nonterminals, n.WellFormed g
  rules : ∀ r ∈ g.rules, r.WellFormed g
  recoveries : ∀ r ∈ g.recoveries, r.WellFormed g

theorem Grammar.marks_eq_false_iff {g : Grammar} :
    ((g.lexer.states.toList.any fun s => s.recognized == .commentStart) && g.comments.isEmpty) =
        false ↔
      ∀ s ∈ g.lexer.states, s.recognized = .commentStart → 0 < g.comments.states.size := by
  simp only [Bool.and_eq_false_imp, List.any_eq_true, Array.mem_toList_iff, beq_iff_eq,
    Automaton.isEmpty_eq_false_iff]
  exact ⟨fun all s mem mark => all ⟨s, mem, mark⟩, fun all ⟨s, mem, mark⟩ => all s mem mark⟩

/-- What each part of a grammar's check asks. -/
theorem Grammar.check_eq_ok_iff {g : Grammar} : g.check = .ok () ↔
    0 < g.tokens.size ∧ (∀ t ∈ g.tokens, t.name ≠ some "") ∧ 0 < g.lexer.states.size ∧
      g.lexer.WellFormed .lexer g.tokens.size ∧ g.comments.WellFormed .comment g.tokens.size ∧
      (∀ s ∈ g.lexer.states, s.recognized = .commentStart → 0 < g.comments.states.size) ∧
      0 < g.states.size ∧ (∀ s ∈ g.states, s.WellFormed g) ∧
      (∀ n ∈ g.nonterminals, n.WellFormed g) ∧ (∀ r ∈ g.rules, r.WellFormed g) ∧
      ∀ r ∈ g.recoveries, r.WellFormed g := by
  have states : checkFrom (fun i (s : ParserState) => within (Defect.parserState i) (s.check g)) 0
      g.states.toList = .ok () ↔ ∀ s ∈ g.states, s.WellFormed g :=
    checkFrom_eq_ok_iff_forall_mem fun _ _ => within_eq_ok_iff.trans ParserState.check_eq_ok_iff
  have nonterminals : checkFrom (fun i (n : Nonterminal) => n.gotos.toList |>
      Nonterminal.checkGotos g i none) 0 g.nonterminals.toList = .ok () ↔
        ∀ n ∈ g.nonterminals, n.WellFormed g :=
    checkFrom_eq_ok_iff_forall_mem fun _ _ => Nonterminal.checkGotos_eq_ok_iff_wellFormed
  have rules : checkFrom (fun i (r : Rule) => within (Defect.rule i) (r.check g)) 0 g.rules.toList =
      .ok () ↔ ∀ r ∈ g.rules, r.WellFormed g :=
    checkFrom_eq_ok_iff_forall_mem fun _ _ => within_eq_ok_iff.trans Rule.check_eq_ok_iff
  have names : (g.tokens.toList.any fun t => t.name == some "") = false ↔
      ∀ t ∈ g.tokens, t.name ≠ some "" := by
    simp only [List.any_eq_false, Array.mem_toList_iff, beq_iff_eq, ne_eq]
  simp only [Grammar.check, bind_unit_eq_ok_iff, refuse_eq_ok_iff, Automaton.check_eq_ok_iff,
    states, nonterminals, rules, names, marks_eq_false_iff, checkEach_eq_ok_iff,
    Recovery.check_eq_ok_iff, Automaton.isEmpty_eq_false_iff, Array.isEmpty_eq_false_iff,
    ← Array.size_pos_iff]

theorem Grammar.wellFormed_of_check {g : Grammar} (valid : g.check = .ok ()) : g.WellFormed := by
  obtain ⟨tokens, names, lexer_root, lexer, comments, comments_root, root, states, nonterminals,
    rules, recoveries⟩ := check_eq_ok_iff.1 valid
  exact ⟨tokens, names, lexer_root, lexer, comments, comments_root, root, states, nonterminals,
    rules, recoveries⟩

/-- The grammars that pass their checks are those that are well-formed. -/
theorem check_accepts_wellFormed (g : Grammar) : g.check = .ok () ↔ g.WellFormed := by
  refine ⟨Grammar.wellFormed_of_check, fun formed => Grammar.check_eq_ok_iff.2 ?_⟩
  exact ⟨formed.tokens, formed.names, formed.lexer_root, formed.lexer, formed.comments,
    formed.comments_root, formed.root, formed.states, formed.nonterminals, formed.rules,
    formed.recoveries⟩

end GrammarMachine
