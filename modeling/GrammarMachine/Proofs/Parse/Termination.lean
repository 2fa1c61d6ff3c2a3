import GrammarMachine.Proofs.Acyclic
import GrammarMachine.Proofs.Parse.Safety

/-!
Parses end. A shift and a recovery that reads on leave less to read; a recovery that does not read
marks the lookahead, which it can do once; a reduction by more than one symbol makes the stack
shorter; and a reduction by one symbol moves along a relation between states that has no circles. A
run therefore descends in the lexicographic order of these four.
-/

namespace GrammarMachine

namespace Grammar

/-- A reduction by a rule of length one on `terminal` can lead from one state to the other. -/
def UnitStep (g : Grammar) (terminal source target : UInt32) : Prop :=
  ∃ state a r n, g.states[source.toNat]? = some state ∧ state.action? terminal = some a ∧
    a.kind = .reduce ∧ g.rules[a.aux.toNat]? = some r ∧ r.length = 1 ∧
    g.nonterminals[r.lhs.toNat]? = some n ∧ ∃ pair ∈ n.gotos, pair.target = target

/-- What keeps a parse from going on for ever. -/
structure Terminating (g : Grammar) : Prop where
  lengths : ∀ r ∈ g.rules, r.length ≠ 0
  shifts : ∀ s ∈ g.states, ∀ a ∈ s.declared, a.kind = .shift →
    ¬(a.low ≤ endOfText ∧ endOfText ≤ a.high)
  units : ∀ terminal : UInt32, terminal.toNat < g.tokens.size → Acyclic (g.UnitStep terminal)

/-- Does every reduction by one symbol on `terminal` lead to a state of lower rank? -/
def descends (g : Grammar) (rank : UInt32 → Nat) (terminal : UInt32) : Bool :=
  (List.range g.states.size).all fun i =>
    match g.states[i]?.bind fun state => state.action? terminal with
    | some ⟨.reduce, _, _, rule⟩ =>
      g.rules[rule.toNat]?.all fun r =>
        r.length != 1 || g.nonterminals[r.lhs.toNat]?.all fun n =>
          n.gotos.all fun pair => rank pair.target < rank (UInt32.ofNat i)
    | _ => true

/-- The conditions for termination, with a rank of the states that decides the last of them. -/
def terminatesBy (g : Grammar) (rank : UInt32 → Nat) : Bool :=
  g.rules.all (fun r => r.length != 0) &&
  g.states.all (fun s => s.declared.all fun a =>
    a.kind != .shift || !decide (a.low ≤ endOfText ∧ endOfText ≤ a.high)) &&
  (List.range g.tokens.size).all fun i => g.descends rank (UInt32.ofNat i)

theorem rank_lt_of_descends {g : Grammar} {rank : UInt32 → Nat} {terminal source target : UInt32}
    (checked : g.descends rank terminal = true) (step : g.UnitStep terminal source target) :
    rank target < rank source := by
  obtain ⟨state, ⟨kind, low, high, aux⟩, r, n, there, action, rfl, rule, length, lhs, pair, mem,
    rfl⟩ := step
  have inside := (Array.getElem?_eq_some_iff.1 there).1
  have here := List.all_eq_true.1 checked source.toNat (List.mem_range.2 inside)
  simp only [there, Option.bind_some, action, rule, Option.all_some, length, bne_self_eq_false,
    Bool.false_or, lhs, Array.all_eq_true_iff_forall_mem, UInt32.ofNat_toNat,
    decide_eq_true_eq] at here
  exact here pair mem

theorem terminating_of_terminatesBy {g : Grammar} (rank : UInt32 → Nat)
    (checked : g.terminatesBy rank = true) : g.Terminating := by
  simp only [terminatesBy, Bool.and_eq_true, Array.all_eq_true_iff_forall_mem] at checked
  obtain ⟨⟨lengths, shifts⟩, units⟩ := checked
  refine ⟨fun r mem => by simpa using lengths r mem, ?_, ?_⟩
  · intro s s_mem a a_mem kind
    have entry := shifts s s_mem a a_mem
    simpa only [kind, bne_self_eq_false, Bool.false_or, Bool.not_eq_true',
      decide_eq_false_iff_not] using entry
  · intro terminal inside
    have terminal_checked := List.all_eq_true.1 units terminal.toNat (List.mem_range.2 inside)
    rw [UInt32.ofNat_toNat] at terminal_checked
    exact .of_rank rank fun _ _ => rank_lt_of_descends terminal_checked

end Grammar

namespace Grammar

variable {g : Grammar}

/-- One unit reduction further, on the same terminal. -/
def Below (g : Grammar) (p q : UInt32 × UInt32) : Prop :=
  p.1 = q.1 ∧ q.1.toNat < g.tokens.size ∧ g.UnitStep q.1 q.2 p.2

theorem wellFounded_below (terminating : g.Terminating) : WellFounded g.Below := by
  have : Finite UInt32 := Finite.of_injective UInt32.toFin fun _ _ => UInt32.toFin_inj.1
  refine ⟨fun (terminal, state) => ?_⟩
  by_cases inside : terminal.toNat < g.tokens.size
  · induction state using (terminating.units terminal inside).wellFounded.induction with
    | h state ih =>
      refine ⟨_, ?_⟩
      rintro ⟨_, next⟩ ⟨rfl, _, step⟩
      exact ih next (.single step)
  · exact ⟨_, fun _ below => absurd below.2.1 inside⟩

end Grammar

namespace Config

variable {σ V : Type} {g : Grammar} {h : Host σ V} {options : Options} {c c' : Config σ V}

/-- Can a recovery still resume on the lookahead without reading on? -/
def unmarked (c : Config σ V) : Nat :=
  if c.recoveredAt = some c.lookahead.origin.pos then 0 else 1

/-- The state on top of the stack. -/
def top (c : Config σ V) : UInt32 :=
  match c.stack with
  | [] => 0
  | frame :: _ => frame.state

/-- What descends: what is left to read, whether a recovery can mark the lookahead, the height of
the stack, and the lookahead with the state on top. -/
def measure (c : Config σ V) : Nat × Nat × Nat × UInt32 × UInt32 :=
  (c.left, c.unmarked, c.stack.length, c.lookahead.id, c.top)

/-- The order in which the measure descends. -/
def Smaller (g : Grammar) :
    Nat × Nat × Nat × UInt32 × UInt32 → Nat × Nat × Nat × UInt32 × UInt32 → Prop :=
  Prod.Lex (· < ·) (Prod.Lex (· < ·) (Prod.Lex (· < ·) g.Below))

theorem wellFounded_smaller (terminating : g.Terminating) : WellFounded (Smaller g) :=
  (Prod.lex Nat.lt_wfRel (Prod.lex Nat.lt_wfRel (Prod.lex Nat.lt_wfRel
    ⟨g.Below, Grammar.wellFounded_below terminating⟩))).wf

theorem Advances.smaller (advances : c.Advances g c') (terminating : g.Terminating)
    (known : c.lookahead.id.toNat < g.tokens.size) : Smaller g c'.measure c.measure := by
  cases advances with
  | shift stack there declared kind low high delivers =>
    have going : c.lookahead.isEnd = false := by
      rw [Token.isEnd, beq_eq_false_iff_ne]
      intro ended
      rw [ended] at low high
      exact terminating.shifts _ (Array.mem_of_getElem? there) _ declared kind ⟨low, high⟩
    exact .left _ _ (left_lt_of_delivers delivers going)
  | @reduce top frame base below rest state a r n stack there action kind rule popped lhs goto
      pushed lexer lookahead recoveredAt =>
    have left : c'.left = c.left := by rw [Config.left, Config.left, lookahead, lexer]
    have unmarked : c'.unmarked = c.unmarked := by
      rw [Config.unmarked, Config.unmarked, lookahead, recoveredAt]
    have positive : r.length.toNat ≠ 0 := fun zero =>
      terminating.lengths r (Array.mem_of_getElem? rule) (UInt32.toNat_inj.1 zero)
    have height := congrArg List.length popped
    have height' := congrArg List.length pushed
    simp only [List.length_drop, List.length_cons] at height height'
    rw [Smaller, measure, measure, left, unmarked]
    refine .right _ (.right _ ?_)
    by_cases unit : r.length = 1
    · have one : r.length.toNat = 1 := by rw [unit]; rfl
      have same : c'.stack.length = c.stack.length := by omega
      rw [same]
      refine .right _ ⟨congrArg Token.id lookahead, known, state, a, r, n, ?_, action, kind, rule,
        unit, lhs, ?_⟩
      · rw [Config.top, stack]
        exact there
      · obtain ⟨pair, mem, target⟩ := Nonterminal.mem_of_goto? goto
        exact ⟨pair, mem, by rw [target, Config.top, pushed]⟩
    · have more : r.length.toNat ≠ 1 := fun one => unit (UInt32.toNat_inj.1 one)
      exact .left _ _ (by omega)
  | recover progress =>
    rcases progress with less | ⟨same, before, after⟩
    · exact .left _ _ less
    · rw [Smaller, measure, measure, same]
      refine .right _ (.left _ _ ?_)
      rw [unmarked, unmarked, if_pos after, if_neg before]
      exact Nat.one_pos

/-- From every sound state the parse ends. -/
theorem exists_run (sound : g.Sound) (terminating : g.Terminating) (healthy : c.Sound g) :
    ∃ fuel outcome, c.run g h options fuel = .ok (some outcome) := by
  induction c using (InvImage.wf measure (wellFounded_smaller terminating)).induction with
  | h c ih =>
    obtain ⟨p, result, follows⟩ : Yields (c.advance g h options) _ := yields_advance sound healthy
    cases p with
    | done accepted last =>
      refine ⟨1, .ofConfig accepted last, ?_⟩
      rw [run, result]
      rfl
    | more next =>
      have smaller := (follows.advances next rfl).smaller terminating healthy.lookahead
      obtain ⟨fuel, outcome, ends⟩ := ih next smaller follows.sound
      refine ⟨fuel + 1, outcome, ?_⟩
      rw [run, result]
      exact ends

end Config

namespace Samples

/-- A number becomes a factor, a factor a term, and a term an expression. -/
def Calculator.unitRank (state : UInt32) : Nat :=
  if state = 5 then 3 else if state = 3 then 2 else if state = 2 then 1 else 0

theorem Calculator.terminating (flavor : Flavor) : (grammar flavor).Terminating := by
  refine Grammar.terminating_of_terminatesBy unitRank ?_
  cases flavor <;> decide +kernel

/-- A number becomes a list, and a list the whole. -/
def Summation.unitRank (state : UInt32) : Nat :=
  if state = 2 then 2 else if state = 3 then 1 else 0

theorem Summation.terminating : grammar.Terminating :=
  Grammar.terminating_of_terminatesBy unitRank (by decide +kernel)

end Samples

theorem exists_parseUnder {σ V : Type} {g : Grammar} (sound : g.Sound)
    (terminating : g.Terminating) (h : Host σ V) (control : Control) (options : Options)
    (source : Source) (host : σ) :
    ∃ fuel outcome, parseUnder control g h options fuel source host = .ok (some outcome) := by
  obtain ⟨c, begun, healthy, _⟩ := Config.yields_start sound h source control host
  obtain ⟨fuel, outcome, ends⟩ : ∃ fuel outcome, c.run g h options fuel = .ok (some outcome) :=
    Config.exists_run sound terminating healthy
  refine ⟨fuel, outcome, ?_⟩
  rw [parseUnder, begun]
  exact ends

/-- Parses end, recovery included: on every source, with every host and under every control, some
number of steps is enough. The sample grammars meet the conditions. -/
theorem parse_terminates {σ V : Type} {g : Grammar} (valid : g.check = .ok ())
    (terminating : g.Terminating) (h : Host σ V) (control : Control) (options : Options)
    (source : Source) (host : σ) :
    (∃ fuel outcome, parseUnder control g h options fuel source host = .ok (some outcome)) ∧
      ∀ sample ∈ [Samples.Calculator.grammar .hard, Samples.Calculator.grammar .soft,
        Samples.Summation.grammar], sample.check = .ok () ∧ sample.Terminating := by
  constructor
  · exact exists_parseUnder (Grammar.sound_of_check valid) terminating h control options source host
  · intro sample mem
    simp only [List.mem_cons, List.not_mem_nil, or_false] at mem
    rcases mem with rfl | rfl | rfl
    · exact ⟨Samples.Calculator.check_grammar .hard, Samples.Calculator.terminating .hard⟩
    · exact ⟨Samples.Calculator.check_grammar .soft, Samples.Calculator.terminating .soft⟩
    · exact ⟨Samples.Summation.check_grammar, Samples.Summation.terminating⟩

/-- On a product without a first factor, where a recovery resumes and another one reads on. -/
theorem calculator_parse_terminates : (Samples.Calculator.grammar .hard).check = .ok () ∧
    (Samples.Calculator.grammar .hard).Terminating ∧ ∃ fuel outcome,
      parseUnder .initial (Samples.Calculator.grammar .hard) Samples.Calculator.host .default fuel
        (.ofText "1+**2" false) (Samples.Calculator.Machine.start false) = .ok (some outcome) := by
  have valid := Samples.Calculator.check_grammar .hard
  have terminating := Samples.Calculator.terminating .hard
  exact ⟨valid, terminating, (parse_terminates valid terminating _ _ _ _ _).1⟩

end GrammarMachine
