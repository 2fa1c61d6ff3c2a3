import GrammarMachine.Parse.Expected
import GrammarMachine.Parse.Recovery

/-!
One step of a parse: shift the lookahead, reduce by a rule, accept, or meet an error.
-/

namespace GrammarMachine

/-- What a step leads to. -/
inductive Progress (α : Type) where
  | more (next : α)
  | done (accepted : Bool) (last : α)

namespace Config

variable {σ V : Type}

/-- The attributes of a shifted token: its text, if it carries one. -/
def tokenAttrs (token : Token) (eval : Evaluation σ V) : List Nat × Evaluation σ V :=
  match token.text with
  | some text =>
    let (id, eval) := eval.alloc (.text text token.origin.pos token.error)
    ([id], eval)
  | none => ([], eval)

/-- Pushes the lookahead and reads on. -/
def shift (g : Grammar) (h : Host σ V) (target : UInt32) :
    Config σ V → Except Fault (Config σ V)
  | ⟨lexer, eval, stack, recoveredAt, la⟩ => do
    let (attrs, ⟨graph, queue, control, host, stats⟩) := tokenAttrs la eval
    let stats := { stats with shifts := stats.shifts + 1 }
    let (token, lexer, eval) ← pull g h lexer ⟨graph, queue, control, host, stats⟩
    return ⟨lexer, eval, ⟨target, attrs, la.origin⟩ :: stack, recoveredAt, token⟩

/-- Replaces the frames of a rule's right-hand side by one for its left-hand side. The parse ends
without success if the stack is too short or the nonterminal has nowhere to go. -/
def reduce (g : Grammar) (h : Host σ V) (id : UInt32) :
    Config σ V → Except Fault (Progress (Config σ V))
  | ⟨lexer, eval, stack, recoveredAt, la⟩ => do
    let rule ← g.rule id
    let length := rule.length.toNat
    match stack.drop length with
    | [] => return .done false ⟨lexer, eval, stack, recoveredAt, la⟩
    | base :: below =>
      let rhs := (stack.take length).reverse
      let origin := (rhs.head?.map Frame.origin).getD la.origin
      let nonterminal ← g.nonterminal rule.lhs
      let ⟨graph, queue, control, host, stats⟩ := eval
      let stats := { stats with reductions := stats.reductions + 1 }
      let (attrs, graph) :=
        graph.allocMany (.pending ⟨none, [], origin⟩) nonterminal.attributeCount
      let eval ← Evaluation.runRule g h id attrs (rhs.map Frame.attrs)
        ⟨graph, queue, control, host, stats⟩
      match nonterminal.goto? base.state with
      | none => return .done false ⟨lexer, eval, base :: below, recoveredAt, la⟩
      | some target =>
        return .more ⟨lexer, eval, ⟨target, attrs, origin⟩ :: base :: below, recoveredAt, la⟩

/-- Reports that the lookahead is not among the terminals of `state`. -/
def reportSyntax (g : Grammar) (h : Host σ V) (state : ParserState) :
    Config σ V → Config σ V
  | ⟨lexer, eval, stack, recoveredAt, la⟩ =>
    let message := Message.syntaxError g h eval.host state la
    ⟨lexer, eval.report h .syntactic la.origin message, stack, recoveredAt, la⟩

/-- Reports a syntax error and recovers, unless the parse is to stop. -/
def fail (g : Grammar) (h : Host σ V) (options : Options) (state : ParserState) (c : Config σ V) :
    Except Fault (Progress (Config σ V)) := do
  let c := c.reportSyntax g h state
  if options.stopOnError || c.eval.control.stopped then return .done false c
  let (recovered, c) ← c.recover g h
  return if recovered then .more c else .done false c

/-- One step of the parser. -/
def step (g : Grammar) (h : Host σ V) (options : Options) (c : Config σ V) :
    Except Fault (Progress (Config σ V)) := do
  match c.stack with
  | [] => return .done false c
  | top :: _ =>
    let state ← g.state top.state
    match state.action? c.lookahead.id with
    | none => return .done false c
    | some action =>
      match action.kind with
      | .shift => return .more (← c.shift g h action.aux)
      | .reduce => c.reduce g h action.aux
      | .accept => return .done true c
      | .error => c.fail g h options state

/-- One step, unless the host asked to stop. -/
def advance (g : Grammar) (h : Host σ V) (options : Options) (c : Config σ V) :
    Except Fault (Progress (Config σ V)) :=
  if c.eval.control.stopped then .ok (.done false c) else c.step g h options

end Config

end GrammarMachine
