import GrammarMachine.Grammar.Lookup
import GrammarMachine.Host
import GrammarMachine.Lexer.Basic

/-!
What a parser state would have taken, for the message of a syntax error.
-/

namespace GrammarMachine

namespace Grammar

/-- Alternatives spelled out before the rest is left out. -/
def maxListed : Nat := 16

/-- Adds the names of `n` terminals from `terminal` on, each name once, until there are more than
can be listed. -/
def addNames (g : Grammar) : Nat → Nat → List String → List String
  | 0, _, names => names
  | n + 1, terminal, names =>
    if maxListed < names.length then names
    else
      let name := g.tokenName terminal.toUInt32
      g.addNames n (terminal + 1) (if names.contains name then names else names ++ [name])

/-- Names of the terminals that `state` has an entry for other than an error. -/
def expectedNames (g : Grammar) (state : ParserState) : List String :=
  state.declared.toList.foldl (fun names a =>
    if a.kind == .error then names
    else g.addNames (a.high.toNat + 1 - a.low.toNat) a.low.toNat names) []

/-- The list of alternatives in words. -/
def expectedText (g : Grammar) (or : String) (state : ParserState) : String :=
  let names := g.expectedNames state
  let listed := or.intercalate (names.take maxListed)
  if maxListed < names.length then listed ++ or ++ "…" else listed

/-- The token that was read instead, in words. -/
def readText (g : Grammar) (ending : String) (token : Token) : String :=
  if token.isEnd then ending
  else
    match token.text with
    | some text => "'" ++ text ++ "'"
    | none => g.tokenName token.id

end Grammar

/-- The message of a syntax error in `state` on `token`. -/
def Message.syntaxError {σ V : Type} (g : Grammar) (h : Host σ V) (host : σ) (state : ParserState)
    (token : Token) : Message :=
  let or := h.message host Key.or.name []
  let ending := h.message host Key.endOfText.name []
  ⟨.expected, [g.expectedText or state, g.readText ending token]⟩

end GrammarMachine
