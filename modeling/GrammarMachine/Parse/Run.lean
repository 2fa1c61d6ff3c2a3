import GrammarMachine.Parse.Step

/-!
A parse from the first token to its outcome. Rules that derive nothing can keep a parse going for
ever, so a run takes a number of steps after which it is abandoned.
-/

namespace GrammarMachine

/-- The result of a parse, with the graph and the state of the host. -/
structure Outcome (σ V : Type) where
  /-- Accepted without a lexical or syntax error. -/
  ok : Bool
  accepted : Bool
  /-- First attribute of the start symbol. -/
  root : Option Nat
  graph : Graph V
  stats : Stats
  host : σ

namespace Outcome

variable {σ V : Type}

/-- The outcome of a parse that ended in this state. Attributes without a value become null. -/
def ofConfig (accepted : Bool) : Config σ V → Outcome σ V
  | ⟨lexer, ⟨graph, _, _, host, stats⟩, stack, _, _⟩ =>
    { ok := accepted && stats.lexicalErrors == 0 && stats.syntaxErrors == 0
      accepted
      root := if accepted then stack.head?.bind fun top => top.attrs.head? else none
      graph := graph.settle
      stats := { stats with tokens := lexer.tokenCount }
      host }

/-- No error of any kind. -/
def isClean (o : Outcome σ V) : Bool := o.ok && o.stats.semanticErrors == 0

/-- The value of the root. -/
def rootValue? (o : Outcome σ V) : Except Fault (Option V) :=
  match o.root with
  | some root => o.graph.value? root
  | none => .ok none

end Outcome

variable {σ V : Type}

/-- Runs a parse for at most `fuel` steps; no outcome if that is not enough. -/
def Config.run (g : Grammar) (h : Host σ V) (options : Options) :
    Nat → Config σ V → Except Fault (Option (Outcome σ V))
  | 0, _ => .ok none
  | fuel + 1, c => do
    match ← c.advance g h options with
    | .more next => Config.run g h options fuel next
    | .done accepted last => return some (.ofConfig accepted last)

/-- Parses a source for at most `fuel` steps, starting under `control`. -/
def parseUnder (control : Control) (g : Grammar) (h : Host σ V) (options : Options) (fuel : Nat)
    (source : Source) (host : σ) : Except Fault (Option (Outcome σ V)) := do
  let c ← Config.start g h source control host
  c.run g h options fuel

/-- Parses a source for at most `fuel` steps. -/
def parse (g : Grammar) (h : Host σ V) (options : Options) (fuel : Nat) (source : Source)
    (host : σ) : Except Fault (Option (Outcome σ V)) :=
  parseUnder options.control g h options fuel source host

end GrammarMachine
