import GrammarMachine.Grammar.Basic
import GrammarMachine.Search

/-!
Questions to a compiled grammar. Ranges and goto pairs are found by halving.
-/

namespace GrammarMachine

/-- The state reached on `code`. -/
def LexState.step? (s : LexState) (code : Int32) : Option UInt32 :=
  match Search.lastPassing? (fun (r : CharRange) => r.low ≤ code) s.ranges with
  | some r => if code ≤ r.high then some r.target else none
  | none => none

namespace ParserState

/-- The entries in front of the one that catches all else. -/
def declared (s : ParserState) : Array Action := s.actions.pop

/-- The entry for a terminal; only a state without entries has none. -/
def action? (s : ParserState) (terminal : UInt32) : Option Action :=
  match Search.lastPassing? (fun (a : Action) => a.low ≤ terminal) s.declared with
  | some a => if terminal ≤ a.high then some a else s.actions.back?
  | none => s.actions.back?

end ParserState

namespace Nonterminal

def attributeCount (n : Nonterminal) : Nat := n.attributeTypes.length

/-- The state entered from `source`; only a nonterminal without pairs has none. -/
def goto? (n : Nonterminal) (source : UInt32) : Option UInt32 :=
  match n.gotos.back? with
  | none => none
  | some last =>
    match Search.find? Goto.source source n.gotos.pop with
    | some pair => some pair.target
    | none => some last.target

end Nonterminal

namespace Grammar

def token? (g : Grammar) (id : UInt32) : Option TokenInfo :=
  g.tokens[id.toNat]?

/-- The name of a terminal, or its number if it has none. -/
def tokenName (g : Grammar) (id : UInt32) : String :=
  match (g.token? id).bind TokenInfo.name with
  | some name => name
  | none => "#" ++ toString id

def recovery? (g : Grammar) (terminal : UInt32) : Option Recovery :=
  g.recoveries.find? fun r => r.terminal == terminal

def hasRecovery (g : Grammar) : Bool := !g.recoveries.isEmpty

def state (g : Grammar) (id : UInt32) : Except Fault ParserState :=
  fetch g.states id.toNat (.parserState id)

def rule (g : Grammar) (id : UInt32) : Except Fault Rule :=
  fetch g.rules id.toNat (.rule id)

def nonterminal (g : Grammar) (id : UInt32) : Except Fault Nonterminal :=
  fetch g.nonterminals id.toNat (.nonterminal id)

end Grammar

end GrammarMachine
