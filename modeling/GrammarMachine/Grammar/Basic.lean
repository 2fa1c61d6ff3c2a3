import GrammarMachine.Fault

/-!
A compiled grammar: tokens, the automata that recognize them and skip comments, parser states with
their terminal ranges, goto pairs, rules with semantic actions, and the terminals on which a parse
can recover. Numbers that name states, rules, terminals and functions are 32-bit words, character
codes are signed ones.
-/

namespace GrammarMachine

structure TokenInfo where
  name : Option String
  /-- Tokens that are not significant separate others and are dropped. -/
  significant : Bool
  /-- The token's text becomes its attribute. -/
  carriesValue : Bool
deriving DecidableEq, Repr

/-- What a lexical state accepts. -/
inductive Recognition where
  | nothing
  | token (id : UInt32)
  | commentStart
  | commentEnd
  /-- The end of a continuation that guards a transition. -/
  | followAccept
deriving DecidableEq, Repr

namespace Recognition

/-- The signed word that stands for a recognition; token numbers stand for themselves. -/
def code : Recognition → Int32
  | nothing => -1
  | token id => id.toInt32
  | commentStart => -2
  | commentEnd => -3
  | followAccept => -4

def ofCode? (code : Int32) : Option Recognition :=
  if 0 ≤ code then some (token code.toUInt32)
  else if code = -1 then some nothing
  else if code = -2 then some commentStart
  else if code = -3 then some commentEnd
  else if code = -4 then some followAccept
  else none

/-- Lower wins: comment marks before tokens, tokens by number. The rest never ends a token. -/
def priority? : Recognition → Option Nat
  | commentStart => some 0
  | commentEnd => some 1
  | token id => some (2 + id.toNat)
  | nothing => none
  | followAccept => none

end Recognition

/-- A transition that reads nothing. -/
structure Epsilon where
  target : UInt32
  /-- Root of the continuation that has to follow for the transition to be taken. -/
  continuation : Option UInt32
deriving DecidableEq, Repr

/-- A transition on the codes from `low` to `high`. -/
structure CharRange where
  target : UInt32
  low : Int32
  high : Int32
deriving DecidableEq, Repr

structure LexState where
  recognized : Recognition
  epsilons : List Epsilon
  /-- In ascending order, without overlap. -/
  ranges : Array CharRange
deriving DecidableEq, Repr

structure Automaton where
  states : Array LexState
  /-- How deep continuations may nest. -/
  maxDepth : UInt32
deriving DecidableEq, Repr

namespace Automaton

def empty : Automaton := ⟨#[], 0⟩

def isEmpty (a : Automaton) : Bool := a.states.isEmpty

/-- State `id`. -/
def state (a : Automaton) (id : UInt32) : Except Fault LexState :=
  fetch a.states id.toNat (.lexState id)

end Automaton

/-- Classes of the comment automaton: a nested start, an end, and the end of the text. -/
def commentBegin : UInt32 := 0

@[inherit_doc commentBegin]
def commentClose : UInt32 := 1

@[inherit_doc commentBegin]
def commentEof : UInt32 := 2

inductive ActionKind where
  | shift
  | reduce
  | accept
  | error
deriving DecidableEq, Repr

namespace ActionKind

def byte : ActionKind → UInt8
  | shift => 0
  | reduce => 1
  | accept => 2
  | error => 3

def ofByte? (b : UInt8) : Option ActionKind :=
  if b = 0 then some shift
  else if b = 1 then some reduce
  else if b = 2 then some accept
  else if b = 3 then some error
  else none

@[simp]
theorem ofByte?_byte (k : ActionKind) : ofByte? k.byte = some k := by
  cases k <;> rfl

def name : ActionKind → String
  | shift => "Shift"
  | reduce => "Reduce"
  | accept => "Accept"
  | error => "Error"

end ActionKind

/-- What to do on the terminals from `low` to `high`; `aux` is the state to shift to or the rule to
reduce by. -/
structure Action where
  kind : ActionKind
  low : UInt32
  high : UInt32
  aux : UInt32
deriving DecidableEq, Repr

structure ParserState where
  /-- In ascending order, without overlap; the last entry catches all else as an error. -/
  actions : Array Action
deriving DecidableEq, Repr

/-- The state to enter from `source`. -/
structure Goto where
  source : UInt32
  target : UInt32
deriving DecidableEq, Repr

structure Nonterminal where
  attributeTypes : List UInt32
  /-- In ascending order of sources; the last pair serves every other source too. -/
  gotos : Array Goto
deriving DecidableEq, Repr

/-- An attribute within a rule: depth zero is the left-hand side, depth `k` the `k`-th symbol of the
right-hand side. -/
structure Slot where
  depth : UInt32
  index : UInt32
deriving DecidableEq, Repr

structure SemanticAction where
  /-- A soft action builds a term, a hard one calls the host. -/
  soft : Bool
  target : Slot
  function : UInt32
  params : List Slot
deriving DecidableEq, Repr

/-- Soft function zero makes the target an alias of its parameter. -/
def SemanticAction.isCopy (a : SemanticAction) : Bool :=
  a.soft && a.function == 0

structure Rule where
  length : UInt32
  lhs : UInt32
  actions : Array SemanticAction
deriving DecidableEq, Repr

/-- In `state`, a recovery puts `nonterminal` in the place of what was skipped. -/
structure RecoveryEntry where
  state : UInt32
  nonterminal : UInt32
deriving DecidableEq, Repr

structure Recovery where
  terminal : UInt32
  entries : List RecoveryEntry
deriving DecidableEq, Repr

structure Grammar where
  tokens : Array TokenInfo
  lexer : Automaton
  comments : Automaton
  states : Array ParserState
  nonterminals : Array Nonterminal
  rules : Array Rule
  recoveries : List Recovery
deriving DecidableEq, Repr

/-- The terminal that ends every text. -/
def endOfText : UInt32 := 0

end GrammarMachine
