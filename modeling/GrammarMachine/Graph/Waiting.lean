import GrammarMachine.Graph.Basic

/-!
Pending attributes: which parameter to wait for, who waits, and the moment a value is known.
-/

namespace GrammarMachine.Graph

variable {V : Type}

/-- The representative of the first of these nodes that is pending. -/
def firstPending? (g : Graph V) : List Nat → Except Fault (Option Nat)
  | [] => .ok none
  | id :: rest => do
    let rep ← g.representative id
    if (← g.node rep).isPending then return some rep
    g.firstPending? rest

/-- Is one of these nodes an error? -/
def anyError (g : Graph V) : List Nat → Except Fault Bool
  | [] => .ok false
  | id :: rest => do
    if ← g.isError id then return true
    g.anyError rest

/-- Gives a pending attribute the action that defines it, and tells whether that was possible: an
attribute with a definition or a value keeps what it has. -/
def bind (g : Graph V) (target : Nat) (binding : Binding) : Except Fault (Bool × Graph V) := do
  match ← g.node target with
  | .pending ⟨none, waiters, origin⟩ =>
    return (true, ← g.replace target (.pending ⟨some binding, waiters, origin⟩))
  | _ => return (false, g)

/-- Lets `target` wait for the pending attribute `source`. -/
def await (g : Graph V) (target source : Nat) : Except Fault (Graph V) := do
  match ← g.node source with
  | .pending state =>
    if state.waiters.contains target then return g
    g.replace source (.pending { state with waiters := state.waiters ++ [target] })
  | _ => .error (.settled source)

/-- Puts a node in the place of a pending attribute and hands over those who waited for it. -/
def define (g : Graph V) (target : Nat) (node : Node V) : Except Fault (List Nat × Graph V) := do
  match ← g.node target with
  | .pending state => return (state.waiters, ← g.replace target node)
  | _ => .error (.settled target)

/-- Lets `waiters` wait for `source`, if it is pending; otherwise gives them back. -/
def handOver (g : Graph V) (source : Nat) (waiters : List Nat) :
    Except Fault (List Nat × Graph V) := do
  match ← g.node source with
  | .pending state =>
    return ([], ← g.replace source (.pending { state with waiters := state.waiters ++ waiters }))
  | _ => return (waiters, g)

/-- How many attributes wait, counted once for each attribute they wait for. -/
def waiterCount (g : Graph V) : Nat :=
  g.nodes.toList.foldr (fun node count => node.waiterCount + count) 0

end GrammarMachine.Graph
