/-!
Internal failures of the machine. Every look-up that a table could send out of range, every
counter that could drop below zero and every loop that could run on for ever ends in one of these
instead of an answer, so that "a checked table is safe to run" is a statement about values.
-/

namespace GrammarMachine

/-- Why the machine itself, and not the text it reads, failed. -/
inductive Fault where
  /-- A state number outside a lexical automaton. -/
  | lexState (id : UInt32)
  /-- A state number outside the parser states. -/
  | parserState (id : UInt32)
  | rule (id : UInt32)
  /-- An action number outside its rule. -/
  | ruleAction (rule : UInt32) (index : Nat)
  | nonterminal (id : UInt32)
  /-- A copy action without a parameter. -/
  | parameter
  /-- An empty look-ahead window. -/
  | window
  /-- A node number outside the graph. -/
  | node (id : Nat)
  /-- Alias links that never reach a node. -/
  | aliasCycle (id : Nat)
  /-- An alias where one was already followed. -/
  | link (id : Nat)
  /-- An attribute under evaluation that is no longer pending. -/
  | settled (id : Nat)
  /-- A comment closed more often than opened. -/
  | nesting
  /-- Fewer finished subtrees than a term has children. -/
  | arity
  /-- A loop ran past the bound computed for it. -/
  | exhausted
deriving DecidableEq, Repr

/-- Entry `i` of `xs`, or the fault that stands for its absence. -/
def fetch {α : Type} (xs : Array α) (i : Nat) (fault : Fault) : Except Fault α :=
  match xs[i]? with
  | some x => .ok x
  | none => .error fault

theorem fetch_eq_ok_iff {α : Type} {xs : Array α} {i : Nat} {fault : Fault} {x : α} :
    fetch xs i fault = .ok x ↔ xs[i]? = some x := by
  unfold fetch
  cases xs[i]? <;> simp

end GrammarMachine
