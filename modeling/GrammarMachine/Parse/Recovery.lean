import GrammarMachine.Parse.Config

/-!
Recovery from a syntax error: skip to a token that some state on the stack can resume on, cut the
stack back to that state, and put a nonterminal without values in the place of what was there.
-/

namespace GrammarMachine.Config

variable {σ V : Type}

/-- The topmost frame whose state has one of these entries: the entry, the frame, and the frames
below it. -/
def resumption? (entries : List RecoveryEntry) :
    List Frame → Option (RecoveryEntry × Frame × List Frame)
  | [] => none
  | frame :: below =>
    match entries.find? fun entry => entry.state == frame.state with
    | some entry => some (entry, frame, below)
    | none => resumption? entries below

/-- Resumes in `frame` on the lookahead; fails if the nonterminal has nowhere to go. -/
def resume (g : Grammar) (entry : RecoveryEntry) (frame : Frame) (below : List Frame) :
    Config σ V → Except Fault (Bool × Config σ V)
  | ⟨lexer, eval, stack, recoveredAt, la⟩ => do
    let nonterminal ← g.nonterminal entry.nonterminal
    match nonterminal.goto? frame.state with
    | none => return (false, ⟨lexer, eval, stack, recoveredAt, la⟩)
    | some target =>
      let (attrs, ⟨graph, queue, control, host, stats⟩) :=
        eval.allocMany .null nonterminal.attributeCount
      let stats := { stats with recoveries := stats.recoveries + 1 }
      return (true, ⟨lexer, ⟨graph, queue, control, host, stats⟩,
        ⟨target, attrs, la.origin⟩ :: frame :: below, some la.origin.pos, la⟩)

/-- Skips tokens until one is found to resume on, within `n` turns. Tells whether there was one. -/
def recoverFrom (g : Grammar) (h : Host σ V) :
    Nat → Config σ V → Except Fault (Bool × Config σ V)
  | 0, _ => .error .exhausted
  | n + 1, c => do
    if c.lookahead.isEnd || c.eval.control.stopped then return (false, c)
    let found := (g.recovery? c.lookahead.id).bind fun r => resumption? r.entries c.stack
    match found with
    | some (entry, frame, below) => c.resume g entry frame below
    | none => recoverFrom g h n (← c.readOn g h)

/-- Recovers from a syntax error on the lookahead. The token on which the last recovery resumed
cannot help again. -/
def recover (g : Grammar) (h : Host σ V) (c : Config σ V) :
    Except Fault (Bool × Config σ V) := do
  if !g.hasRecovery then return (false, c)
  let c ← if c.recoveredAt == some c.lookahead.origin.pos && !c.lookahead.isEnd
    then c.readOn g h else pure c
  recoverFrom g h (c.lexer.turns + 1) c

end GrammarMachine.Config
