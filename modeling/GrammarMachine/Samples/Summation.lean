import GrammarMachine.Grammar.Assembly
import GrammarMachine.Samples.Errors
import GrammarMachine.Text.Quoted

/-!
Numbers between commas, summed from the left through an accumulator that is handed down. The
accumulator of a list is known only when the rule around it has been reduced, so every addition
waits.

    0  S -> L               L.acc := zero()              S.val := L.sum
    1  L -> number ',' L'   L'.acc := add(L.acc, number)   L.sum := L'.sum
    2  L -> number          L.sum := add(L.acc, number)
-/

namespace GrammarMachine.Samples.Summation

def number : UInt32 := 1
def comma : UInt32 := 2
def blank : UInt32 := 3

def total : UInt32 := 0
def items : UInt32 := 1

/-- Attributes of a list. -/
def accumulator : UInt32 := 0

@[inherit_doc accumulator]
def sum : UInt32 := 1

/-- Function numbers. -/
def zero : UInt32 := 1

@[inherit_doc zero]
def add : UInt32 := 2

def blanks : List (Char × Char × UInt32) := [('\t', '\n', 1), ('\r', '\r', 1), (' ', ' ', 1)]

def lexer : Automaton where
  states := #[
    .ofRanges .nothing [] (blanks ++ [(',', ',', 2), ('0', '9', 3)]),
    .ofRanges (.token blank) [] blanks,
    .ofRanges (.token comma) [] [],
    .ofRanges (.token number) [] [('0', '9', 3)]]
  maxDepth := 0

def grammar : Grammar where
  tokens := #[
    ⟨some "end of text", true, false⟩,
    ⟨some "number", true, true⟩,
    ⟨some "','", true, false⟩,
    ⟨none, false, false⟩]
  lexer
  comments := .empty
  states := #[
    .ofActions [.shift number number 2],
    .ofActions [.accept endOfText],
    .ofActions [.reduce endOfText endOfText 2, .shift comma comma 4],
    .ofActions [.reduce endOfText endOfText 0],
    .ofActions [.shift number number 2],
    .ofActions [.reduce endOfText endOfText 1]]
  nonterminals := #[.ofPairs 1 [(0, 1)], .ofPairs 2 [(0, 3), (4, 5)]]
  rules := #[
    ⟨1, total, #[.call zero ⟨1, accumulator⟩ [], .copy ⟨0, 0⟩ ⟨1, sum⟩]⟩,
    ⟨3, items, #[.call add ⟨3, accumulator⟩ [⟨0, accumulator⟩, ⟨1, 0⟩],
      .copy ⟨0, sum⟩ ⟨3, sum⟩]⟩,
    ⟨1, items, #[.call add ⟨0, sum⟩ [⟨0, accumulator⟩, ⟨1, 0⟩]]⟩]
  recoveries := []

/-- State of the host that sums. -/
structure Machine where
  log : ErrorLog
  /-- Functions with their results, in order. -/
  trace : Array (UInt32 × Int)

namespace Machine

def start (stopOnFirst : Bool) : Machine := ⟨.start stopOnFirst, #[]⟩

def addition (call : Call Int) : Except String Int :=
  match call.value? 0 with
  | none => .error "accumulator without a value"
  | some acc =>
    let text := (call.text? 1).getD ""
    match numeral? text with
    | none => .error ("bad number " ++ Text.quoteString text)
    | some n =>
      match int64? (acc + n) with
      | some result => .ok result
      | none => .error "overflow in addition"

def result (call : Call Int) : Except String Int :=
  if call.function = zero then .ok 0
  else if call.function = add then addition call
  else .error s!"unknown function {call.function}"

def execute (call : Call Int) (m : Machine) : Answer Int × Machine :=
  match result call with
  | .ok n => (.value n, { m with trace := m.trace.push (call.function, n) })
  | .error reason => (.refuse reason, m)

end Machine

def host : Host Machine Int where
  execute call _ m := m.execute call
  error report _ m :=
    let (commands, log) := m.log.add report
    (commands, { m with log })
  message _ := Message.render

end GrammarMachine.Samples.Summation
