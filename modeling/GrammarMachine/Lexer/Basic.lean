import GrammarMachine.Lexer.Scan
import GrammarMachine.Message
import GrammarMachine.Text.Layout

/-!
The lexer: longest matches one after the other, blanks dropped, comments skipped, and runs of
characters that nothing matches reported once.
-/

namespace GrammarMachine

structure Token where
  id : UInt32
  /-- Present for tokens that carry a value. -/
  text : Option String
  origin : Origin
  /-- Something unreadable stood in front of it. -/
  error : Bool
deriving DecidableEq, Repr

def Token.isEnd (t : Token) : Bool := t.id == endOfText

/-- A lexical error, not yet in words. -/
structure Diagnostic where
  origin : Origin
  message : Message
deriving DecidableEq, Repr

structure Lexer where
  cursor : Cursor
  /-- Within a run of characters that nothing matches. -/
  stuck : Bool
  /-- Errors not yet taken, oldest first. -/
  diagnostics : Array Diagnostic
  errorSeen : Bool
  /-- Significant tokens delivered so far. -/
  tokenCount : Nat

namespace Lexer

def start (source : Source) : Lexer :=
  { cursor := Cursor.start source, stuck := false, diagnostics := #[], errorSeen := false,
    tokenCount := 0 }

def origin (l : Lexer) : Origin := l.cursor.origin

/-- A number of turns that is enough for any loop which consumes a character in each. -/
def turns (l : Lexer) : Nat := l.cursor.remaining + 1

def takeDiagnostics (l : Lexer) : List Diagnostic × Lexer :=
  (l.diagnostics.toList, { l with diagnostics := #[] })

def diagnose (l : Lexer) (origin : Origin) (key : Key) (args : List String) : Lexer :=
  { l with errorSeen := true, diagnostics := l.diagnostics.push ⟨origin, ⟨key, args⟩⟩ }

/-- How an unexpected character is shown: as itself, or by its code. -/
def describe (code : Int32) : String :=
  match Text.scalar? code.toUInt32 with
  | some c =>
    if Text.isControl c then "U+" ++ Text.upperHex 4 code.toUInt32.toNat
    else String.ofList ['\'', c, '\'']
  | none => "U+" ++ Text.upperHex 4 code.toUInt32.toNat

/-- The longest match of an automaton at the cursor, if it is not empty. -/
def scan (a : Automaton) (l : Lexer) : Except Fault (Option Match × Lexer) := do
  let (found, cursor) ← a.longestMatch 0 l.cursor
  return (found.filter fun m => 0 < m.length, { l with cursor })

def consume (l : Lexer) (n : Nat) : Except Fault Lexer :=
  return { l with cursor := ← l.cursor.consume n }

/-- Skips a comment that is open `nesting` times and began at `start`. Characters that the comment
automaton does not match are skipped one at a time. -/
def skipComment (g : Grammar) (start : Origin) : Nat → Nat → Lexer → Except Fault Lexer
  | 0, _, _ => .error .exhausted
  | n + 1, nesting, l => do
    if ← l.cursor.atEnd then return l.diagnose start .unterminatedComment []
    let (found, l) ← l.scan g.comments
    match found with
    | none => skipComment g start n nesting (← l.consume 1)
    | some m =>
      let l ← l.consume m.length
      match m.recognized with
      | .token id =>
        if id == commentBegin then skipComment g start n (nesting + 1) l
        else if id == commentClose then
          match nesting with
          | 0 => .error .nesting
          | 1 => return l
          | nesting + 2 => skipComment g start n (nesting + 1) l
        else if id == commentEof then return l.diagnose start .unterminatedComment []
        else skipComment g start n nesting l
      | _ => skipComment g start n nesting l

/-- The next significant token within `n` turns; `afterError` tells whether something unreadable was
met since the last one. -/
def nextFrom (g : Grammar) : Nat → Bool → Lexer → Except Fault (Token × Lexer)
  | 0, _, _ => .error .exhausted
  | n + 1, afterError, l => do
    let origin := l.origin
    let head ← l.cursor.head
    if head.isEnd then return (⟨endOfText, none, origin, afterError⟩, l)
    let (found, l) ← l.scan g.lexer
    match found with
    | none =>
      let l := if l.stuck then l
        else { l.diagnose origin .unexpectedChar [describe head.code] with stuck := true }
      nextFrom g n true (← l.consume 1)
    | some m =>
      let text := l.cursor.text m.length
      let l ← { l with stuck := false }.consume m.length
      match m.recognized with
      | .token id =>
        match g.token? id with
        | none => nextFrom g n afterError l
        | some info =>
          if info.significant then
            return (⟨id, if info.carriesValue then some text else none, origin, afterError⟩,
              { l with tokenCount := l.tokenCount + 1 })
          else nextFrom g n afterError l
      | .commentStart => nextFrom g n afterError (← skipComment g origin l.turns 1 l)
      | .commentEnd => nextFrom g n true (l.diagnose origin .unexpectedCommentEnd [])
      | .nothing => nextFrom g n afterError l
      | .followAccept => nextFrom g n afterError l

/-- The next significant token. The end of text repeats. -/
def next (g : Grammar) (l : Lexer) : Except Fault (Token × Lexer) :=
  nextFrom g l.turns false l

/-- All tokens up to the end of text, within `n` turns. -/
def tokensFrom (g : Grammar) : Nat → Lexer → Except Fault (List Token × Lexer)
  | 0, _ => .error .exhausted
  | n + 1, l => do
    let (token, l) ← l.next g
    if token.isEnd then return ([], l)
    let (rest, l) ← tokensFrom g n l
    return (token :: rest, l)

/-- All tokens up to the end of text, and the lexical errors not taken before. -/
def tokens (g : Grammar) (l : Lexer) : Except Fault (List Token × List Diagnostic) := do
  let (tokens, l) ← tokensFrom g l.turns l
  return (tokens, l.diagnostics.toList)

end Lexer

end GrammarMachine
