import GrammarMachine.Ascending
import GrammarMachine.Grammar.Basic
import GrammarMachine.Source
import GrammarMachine.Text.Scalar

/-!
Putting grammars together by hand. Ranges, entries and pairs may be given in any order.
-/

namespace GrammarMachine

namespace LexState

/-- A lexical state with transitions `(low, high, target)` between characters. -/
def ofRanges (recognized : Recognition) (epsilons : List Epsilon)
    (ranges : List (Char × Char × UInt32)) : LexState :=
  let ranges := ranges.map fun (low, high, target) =>
    (⟨target, Text.code low, Text.code high⟩ : CharRange)
  ⟨recognized, epsilons, (Ascending.sort CharRange.low ranges).toArray⟩

/-- Adds a transition on the end of text, whose code is below that of every character. -/
def onEndOfText (s : LexState) (target : UInt32) : LexState :=
  { s with ranges := (⟨target, endCode, endCode⟩ :: s.ranges.toList).toArray }

end LexState

namespace Epsilon

def plain (target : UInt32) : Epsilon := ⟨target, none⟩

/-- A transition that is taken only in front of a continuation. -/
def followedBy (target continuation : UInt32) : Epsilon := ⟨target, some continuation⟩

end Epsilon

namespace Action

def shift (low high target : UInt32) : Action := ⟨.shift, low, high, target⟩

def reduce (low high rule : UInt32) : Action := ⟨.reduce, low, high, rule⟩

def accept (terminal : UInt32) : Action := ⟨.accept, terminal, terminal, 0⟩

/-- The entry that catches all else. -/
def catchAll : Action := ⟨.error, 0, 0, 0⟩

end Action

/-- A parser state with these entries, and an error on all else. -/
def ParserState.ofActions (actions : List Action) : ParserState :=
  ⟨(Ascending.sort Action.low actions).toArray.push .catchAll⟩

/-- A nonterminal with `attributes` attributes and goto pairs `(source, target)`. -/
def Nonterminal.ofPairs (attributes : Nat) (pairs : List (UInt32 × UInt32)) : Nonterminal :=
  let gotos := pairs.map fun (source, target) => (⟨source, target⟩ : Goto)
  ⟨List.replicate attributes 0, (Ascending.sort Goto.source gotos).toArray⟩

namespace SemanticAction

def copy (target source : Slot) : SemanticAction := ⟨true, target, 0, [source]⟩

/-- A hard action. -/
def call (function : UInt32) (target : Slot) (params : List Slot) : SemanticAction :=
  ⟨false, target, function, params⟩

/-- A soft action. -/
def term (function : UInt32) (target : Slot) (params : List Slot) : SemanticAction :=
  ⟨true, target, function, params⟩

end SemanticAction

end GrammarMachine
