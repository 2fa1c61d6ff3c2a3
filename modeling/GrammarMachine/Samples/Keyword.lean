import GrammarMachine.Grammar.Assembly

/-!
A lexer in which `if` is a keyword only directly in front of a parenthesis, and an identifier
elsewhere. There is no syntax: every terminal is an error.
-/

namespace GrammarMachine.Samples.Keyword

def keyword : UInt32 := 1
def identifier : UInt32 := 2
def openParen : UInt32 := 3
def blank : UInt32 := 4

def lexer : Automaton where
  states := #[
    .ofRanges .nothing [.plain 7] [(' ', ' ', 8), ('(', '(', 6), ('i', 'i', 1)],
    .ofRanges .nothing [] [('f', 'f', 2)],
    .ofRanges .nothing [.followedBy 3 4] [],
    .ofRanges (.token keyword) [] [],
    .ofRanges .nothing [] [('(', '(', 5)],
    .ofRanges .followAccept [] [],
    .ofRanges (.token openParen) [] [],
    .ofRanges .nothing [] [('a', 'z', 9)],
    .ofRanges (.token blank) [] [(' ', ' ', 8)],
    .ofRanges (.token identifier) [] [('a', 'z', 9)]]
  maxDepth := 1

def grammar : Grammar where
  tokens := #[
    ⟨some "end of text", true, false⟩,
    ⟨some "'if'", true, false⟩,
    ⟨some "identifier", true, true⟩,
    ⟨some "'('", true, false⟩,
    ⟨none, false, false⟩]
  lexer
  comments := .empty
  states := #[.ofActions []]
  nonterminals := #[]
  rules := #[]
  recoveries := []

end GrammarMachine.Samples.Keyword
