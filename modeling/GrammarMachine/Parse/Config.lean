import GrammarMachine.Lexer.Basic
import GrammarMachine.Parse.Evaluation

/-!
The state of a parse between two steps.
-/

namespace GrammarMachine

structure Options where
  /-- Call no more functions once an error has been seen. Copies and terms go on. -/
  lockOnError : Bool
  /-- Give up at the first syntax error. -/
  stopOnError : Bool
deriving DecidableEq, Repr

namespace Options

def default : Options := ⟨false, false⟩

/-- The control that a parse starts with. -/
def control (o : Options) : Control :=
  if o.lockOnError then Control.initial.obey .lock else Control.initial

end Options

/-- An entry of the parser's stack. -/
structure Frame where
  state : UInt32
  attrs : List Nat
  origin : Origin
deriving DecidableEq, Repr

structure Config (σ V : Type) where
  lexer : Lexer
  eval : Evaluation σ V
  /-- Top first. -/
  stack : List Frame
  /-- Position of the token on which the last recovery resumed. -/
  recoveredAt : Option Nat
  lookahead : Token

variable {σ V : Type}

/-- The next token. Lexical errors met on the way are reported. -/
def pull (g : Grammar) (h : Host σ V) (lexer : Lexer) (eval : Evaluation σ V) :
    Except Fault (Token × Lexer × Evaluation σ V) := do
  let (token, lexer) ← lexer.next g
  let (diagnostics, lexer) := lexer.takeDiagnostics
  let eval := diagnostics.foldl (fun eval d => eval.report h .lexical d.origin d.message) eval
  return (token, lexer, eval)

namespace Config

/-- A parse that has read its first token. -/
def start (g : Grammar) (h : Host σ V) (source : Source) (control : Control) (host : σ) :
    Except Fault (Config σ V) := do
  let eval : Evaluation σ V := ⟨.empty, [], control, host, .zero⟩
  let (token, lexer, eval) ← pull g h (Lexer.start source) eval
  return ⟨lexer, eval, [⟨0, [], token.origin⟩], none, token⟩

/-- Takes the next token as lookahead. -/
def readOn (g : Grammar) (h : Host σ V) : Config σ V → Except Fault (Config σ V)
  | ⟨lexer, eval, stack, recoveredAt, _⟩ => do
    let (token, lexer, eval) ← pull g h lexer eval
    return ⟨lexer, eval, stack, recoveredAt, token⟩

end Config

end GrammarMachine
