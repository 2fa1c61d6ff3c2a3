import GrammarMachine.Graph.Basic
import GrammarMachine.Message

/-!
What the machine asks of its surroundings: to compute functions, to take error reports and to put
messages into words. A host answers a call together with commands for the running parse.
-/

namespace GrammarMachine

inductive ErrorKind where
  | lexical
  | syntactic
  | semantic
deriving DecidableEq, Repr

/-- An error in its final wording. -/
structure Report where
  kind : ErrorKind
  origin : Origin
  message : String
deriving DecidableEq, Repr

/-- A request to the running parse. -/
inductive Command where
  /-- Give up before the next step. -/
  | stop
  /-- Call no more functions once an error has been seen. -/
  | lock
  | unlock
deriving DecidableEq, Repr

structure Control where
  stopped : Bool
  locked : Bool
deriving DecidableEq, Repr

namespace Control

def initial : Control := ⟨false, false⟩

/-- A stopped parse stays stopped. -/
def obey (control : Control) : Command → Control
  | .stop => { control with stopped := true }
  | .lock => { control with locked := true }
  | .unlock => { control with locked := false }

theorem stopped_obey {control : Control} (command : Command) (stopped : control.stopped = true) :
    (control.obey command).stopped = true := by
  cases command <;> simp [obey, stopped]

def obeyAll (control : Control) (commands : List Command) : Control :=
  commands.foldl obey control

end Control

/-- A function to compute, with the nodes it is applied to. -/
structure Call (V : Type) where
  function : UInt32
  /-- Position recorded for the attribute being computed. -/
  pos : Nat
  params : List Nat
  graph : Graph V

namespace Call

variable {V : Type}

/-- The node behind parameter `i`. -/
def param? (call : Call V) (i : Nat) : Option (Node V) := do
  let id ← call.params[i]?
  (call.graph.resolve id).toOption

/-- Text of parameter `i`, if it is a token. -/
def text? (call : Call V) (i : Nat) : Option String := do
  match ← call.param? i with
  | .text content _ _ => some content
  | _ => none

/-- Value of parameter `i`, if the host computed one. -/
def value? (call : Call V) (i : Nat) : Option V := do
  match ← call.param? i with
  | .user _ value _ _ => value
  | _ => none

end Call

/-- A computed value. -/
structure Produced (V : Type) where
  value : V
  /-- The recorded position serves when absent. -/
  pos : Option Nat
deriving Repr

/-- The answer to a call: a value or the reason for refusing, and commands. -/
structure Answer (V : Type) where
  result : Except String (Produced V)
  commands : List Command

namespace Answer

variable {V : Type}

def value (v : V) : Answer V := ⟨.ok ⟨v, none⟩, []⟩

def refuse (reason : String) : Answer V := ⟨.error reason, []⟩

end Answer

/-- A host with state `σ` and values `V`. -/
structure Host (σ V : Type) where
  execute : Call V → Control → σ → Answer V × σ
  error : Report → Control → σ → List Command × σ
  message : σ → String → List String → String

end GrammarMachine
