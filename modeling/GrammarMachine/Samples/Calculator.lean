import GrammarMachine.Grammar.Assembly
import GrammarMachine.Samples.Errors

/-!
Arithmetic over sums, products, parentheses and decimal numbers, with nested comments and recovery
on the product sign.

    0  E -> E '+' T      3  T -> F
    1  E -> T            4  F -> '(' E ')'
    2  T -> T '*' F      5  F -> number

The hard flavour computes integers, the soft one keeps the tree.
-/

namespace GrammarMachine.Samples.Calculator

def number : UInt32 := 1
def plus : UInt32 := 2
def star : UInt32 := 3
def openParen : UInt32 := 4
def closeParen : UInt32 := 5
def blank : UInt32 := 6

def expr : UInt32 := 0
def term : UInt32 := 1
def factor : UInt32 := 2

/-- Function numbers. -/
def add : UInt32 := 1

@[inherit_doc add]
def multiply : UInt32 := 2

@[inherit_doc add]
def evaluate : UInt32 := 3

inductive Flavor where
  | hard
  | soft
deriving DecidableEq, Repr

def blanks : List (Char × Char × UInt32) := [('\t', '\n', 1), ('\r', '\r', 1), (' ', ' ', 1)]

def lexer : Automaton where
  states := #[
    .ofRanges .nothing [] (blanks ++ [('(', '(', 2), (')', ')', 3), ('*', '*', 4), ('+', '+', 5),
      ('/', '/', 6), ('0', '9', 7)]),
    .ofRanges (.token blank) [] blanks,
    .ofRanges (.token openParen) [] [],
    .ofRanges (.token closeParen) [] [],
    .ofRanges (.token star) [] [('/', '/', 9)],
    .ofRanges (.token plus) [] [],
    .ofRanges .nothing [] [('*', '*', 8)],
    .ofRanges (.token number) [] [('0', '9', 7)],
    .ofRanges .commentStart [] [],
    .ofRanges .commentEnd [] []]
  maxDepth := 0

/-- Recognizes the marks of comments and the end of text within a comment. -/
def comments : Automaton where
  states := #[
    (LexState.ofRanges .nothing [] [('*', '*', 1), ('/', '/', 2)]).onEndOfText 5,
    .ofRanges .nothing [] [('/', '/', 3)],
    .ofRanges .nothing [] [('*', '*', 4)],
    .ofRanges (.token commentClose) [] [],
    .ofRanges (.token commentBegin) [] [],
    .ofRanges (.token commentEof) [] []]
  maxDepth := 0

/-- Entries of a state in which an operand starts. -/
def operand : List Action := [.shift number number 5, .shift openParen openParen 4]

/-- Reduces by a rule on all that follows a term or a factor. -/
def onFollow (rule : UInt32) : List Action :=
  [.reduce endOfText endOfText rule, .reduce plus star rule, .reduce closeParen closeParen rule]

/-- Reduces by a rule on all that follows an expression, and goes on with a product. -/
def afterTerm (rule : UInt32) : List Action :=
  [.reduce endOfText endOfText rule, .reduce plus plus rule, .shift star star 7,
    .reduce closeParen closeParen rule]

def states : Array ParserState := #[
  .ofActions operand,
  .ofActions [.accept endOfText, .shift plus plus 6],
  .ofActions (afterTerm 1),
  .ofActions (onFollow 3),
  .ofActions operand,
  .ofActions (onFollow 5),
  .ofActions operand,
  .ofActions operand,
  .ofActions [.shift plus plus 6, .shift closeParen closeParen 11],
  .ofActions (afterTerm 0),
  .ofActions (onFollow 2),
  .ofActions (onFollow 4)]

/-- The action that applies a function to attributes of the right-hand side. -/
def apply (flavor : Flavor) (function : UInt32) (params : List Slot) : SemanticAction :=
  match flavor with
  | .hard => .call function ⟨0, 0⟩ params
  | .soft => .term function ⟨0, 0⟩ params

def rules (flavor : Flavor) : Array Rule := #[
  ⟨3, expr, #[apply flavor add [⟨1, 0⟩, ⟨3, 0⟩]]⟩,
  ⟨1, expr, #[.copy ⟨0, 0⟩ ⟨1, 0⟩]⟩,
  ⟨3, term, #[apply flavor multiply [⟨1, 0⟩, ⟨3, 0⟩]]⟩,
  ⟨1, term, #[.copy ⟨0, 0⟩ ⟨1, 0⟩]⟩,
  ⟨3, factor, #[.copy ⟨0, 0⟩ ⟨2, 0⟩]⟩,
  ⟨1, factor, #[apply flavor evaluate [⟨1, 0⟩]]⟩]

def grammar (flavor : Flavor) : Grammar where
  tokens := #[
    ⟨some "end of text", true, false⟩,
    ⟨some "number", true, true⟩,
    ⟨some "'+'", true, false⟩,
    ⟨some "'*'", true, false⟩,
    ⟨some "'('", true, false⟩,
    ⟨some "')'", true, false⟩,
    ⟨none, false, false⟩]
  lexer
  comments
  states
  nonterminals := #[
    .ofPairs 1 [(0, 1), (4, 8)],
    .ofPairs 1 [(0, 2), (4, 2), (6, 9)],
    .ofPairs 1 [(0, 3), (4, 3), (6, 3), (7, 10)]]
  rules := rules flavor
  recoveries := [⟨star, [⟨0, term⟩, ⟨4, term⟩, ⟨6, term⟩, ⟨7, factor⟩]⟩]

/-- State of the host that computes. -/
structure Machine where
  log : ErrorLog
  /-- Functions called so far, in order. -/
  calls : Array UInt32

namespace Machine

def start (stopOnFirst : Bool) : Machine := ⟨.start stopOnFirst, #[]⟩

/-- Applies an operation to both parameters. -/
def binary (call : Call Int) (operation : Int → Int → Int) (overflow : String) : Answer Int :=
  match call.value? 0, call.value? 1 with
  | some a, some b =>
    match int64? (operation a b) with
    | some n => .value n
    | none => .refuse overflow
  | _, _ => .refuse "operand without a value"

def evaluateNumber (call : Call Int) : Answer Int :=
  match call.text? 0 with
  | none => .refuse "number without text"
  | some text =>
    match numeral? text with
    | some n => .value n
    | none => .refuse s!"number {text} is out of range"

def answer (call : Call Int) : Answer Int :=
  if call.function = evaluate then evaluateNumber call
  else if call.function = add then binary call (· + ·) "overflow in addition"
  else if call.function = multiply then binary call (· * ·) "overflow in multiplication"
  else .refuse s!"unknown function {call.function}"

end Machine

/-- The host of the hard flavour. -/
def host : Host Machine Int where
  execute call _ m := (Machine.answer call, { m with calls := m.calls.push call.function })
  error report _ m :=
    let (commands, log) := m.log.add report
    (commands, { m with log })
  message _ := Message.render

/-- A host for the soft flavour, which calls no functions. -/
def treeHost : Host ErrorLog Unit where
  execute call _ log :=
    (.refuse s!"function {call.function} is not evaluated by this host", log)
  error report _ log := log.add report
  message _ := Message.render

end GrammarMachine.Samples.Calculator
