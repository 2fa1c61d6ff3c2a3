import GrammarMachine.Grammar.Lookup
import GrammarMachine.Text.Quoted
import GrammarMachine.Text.Scalar

/-!
A grammar as a listing for the eye: tokens, automata, parser states, rules and recoveries.
-/

namespace GrammarMachine

/-- A character code: the character between quotes, or the number if it is none to be shown. -/
def showCode (code : Int32) : String :=
  match Text.scalar? code.toUInt32 with
  | some c =>
    if 0 ≤ code && !Text.isControl c then Text.quoteChar c else toString code.toInt
  | none => toString code.toInt

def Recognition.listing : Recognition → String
  | nothing => ""
  | token id => s!"=> Token({id})"
  | commentStart => "=> CommentStart"
  | commentEnd => "=> CommentEnd"
  | followAccept => "=> FollowAccept"

def CharRange.listing (r : CharRange) : String :=
  let codes := if r.low = r.high then showCode r.low
    else showCode r.low ++ ".." ++ showCode r.high
  s!"{codes}->{r.target}"

def Epsilon.listing (e : Epsilon) : String :=
  match e.continuation with
  | some continuation => s!"eps->{e.target} if {continuation}"
  | none => s!"eps->{e.target}"

def Action.listing (a : Action) : String :=
  s!"[{a.low}..{a.high}] {a.kind.name} {a.aux}"

/-- The number in front of a line. -/
def margin (index : Nat) : String := "  " ++ Text.padLeft 3 (toString index)

/-- One line for each item, numbered from `i`. -/
def numbered {α : Type} (line : Nat → α → String) : Nat → List α → List String
  | _, [] => []
  | i, x :: rest => line i x :: numbered line (i + 1) rest

def LexState.listing (index : Nat) (s : LexState) : String :=
  let epsilons := " ".intercalate (s.epsilons.map Epsilon.listing)
  let ranges := " ".intercalate (s.ranges.toList.map CharRange.listing)
  s!"{margin index} {s.recognized.listing} {epsilons} {ranges}"

def Automaton.listing (label : String) (a : Automaton) : List String :=
  s!"{label} ({a.states.size} states, depth {a.maxDepth}):"
    :: numbered LexState.listing 0 a.states.toList

def ParserState.listing (index : Nat) (s : ParserState) : String :=
  s!"{margin index} " ++ ", ".intercalate (s.declared.toList.map Action.listing)

def Rule.listing (index : Nat) (r : Rule) : String :=
  s!"rule {index}: nt {r.lhs} len {r.length} ({r.actions.size} actions)"

namespace Grammar

def tokenLine (g : Grammar) (index : Nat) (t : TokenInfo) : String :=
  let flags := (if t.significant then [] else ["blank"]) ++ (if t.carriesValue then ["value"] else [])
  let name := Text.padRight 20 (g.tokenName index.toUInt32)
  s!"{margin index} {name} " ++ " ".intercalate flags

def recoveryLine (g : Grammar) (r : Recovery) : String :=
  s!"recover on {g.tokenName r.terminal} in {r.entries.length} states"

/-- The lines of the listing. -/
def listing (g : Grammar) : List String :=
  s!"tokens ({g.tokens.size}):" :: numbered g.tokenLine 0 g.tokens.toList
    ++ g.lexer.listing "lexer"
    ++ g.comments.listing "comments"
    ++ s!"parser ({g.states.size} states):" :: numbered ParserState.listing 0 g.states.toList
    ++ numbered Rule.listing 0 g.rules.toList
    ++ g.recoveries.map g.recoveryLine

end Grammar

end GrammarMachine
