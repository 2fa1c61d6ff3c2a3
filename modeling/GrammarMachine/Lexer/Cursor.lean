import GrammarMachine.Fault
import GrammarMachine.Source

/-!
The place of the lexer in its source: a window of characters read ahead, of which the first is the
next one to consume. Line and column move only when characters are consumed.
-/

namespace GrammarMachine

structure Cursor where
  /-- Stands behind the window. -/
  reader : Reader
  /-- Position of the first character of the window. -/
  pos : Nat
  window : Array Reading
  line : Nat
  col : Nat
  /-- The last character consumed was a carriage return. -/
  afterReturn : Bool

namespace Cursor

def start (source : Source) : Cursor :=
  let (first, reader) := (Reader.start source).read
  { reader, pos := source.start, window := #[first], line := 1, col := 1, afterReturn := false }

/-- The next character to consume. -/
def head (c : Cursor) : Except Fault Reading :=
  fetch c.window 0 .window

def atEnd (c : Cursor) : Except Fault Bool :=
  return (← c.head).isEnd

def origin (c : Cursor) : Origin := ⟨c.pos, c.line, c.col⟩

/-- Units of the source from the cursor on. -/
def remaining (c : Cursor) : Nat := c.reader.source.stop - c.pos

/-- Reads up to `n` more characters into the window, but none behind the end of text. -/
def fill : Nat → Cursor → Except Fault Cursor
  | 0, c => .ok c
  | n + 1, c =>
    match c.window.back? with
    | none => .error .window
    | some last =>
      if last.isEnd then .ok c
      else
        let (next, reader) := c.reader.read
        fill n { c with reader, window := c.window.push next }

/-- The character `i` places ahead. The end of text repeats. -/
def peek (i : Nat) (c : Cursor) : Except Fault (Reading × Cursor) := do
  let c ← c.fill (i + 1 - c.window.size)
  let reading ← fetch c.window (min i (c.window.size - 1)) .window
  return (reading, c)

/-- Text of the first `n` characters of the window. End codes and codes that are no character are
left out. -/
def text (c : Cursor) (n : Nat) : String :=
  String.ofList <| (c.window.toList.take n).filterMap fun r =>
    if 0 < r.code then Text.scalar? r.code.toUInt32 else none

def carriageReturn : Int32 := 13

def lineFeed : Int32 := 10

/-- Counts one character. A carriage return, a line feed, and the first followed by the second each
end one line. -/
def track (c : Cursor) (code : Int32) : Cursor :=
  if code == carriageReturn then { c with line := c.line + 1, col := 1, afterReturn := true }
  else if code == lineFeed then
    if c.afterReturn then { c with afterReturn := false }
    else { c with line := c.line + 1, col := 1 }
  else { c with col := c.col + 1, afterReturn := false }

/-- Counts the next `n` characters of the window from place `i` on, up to the end of text. -/
def pass : Nat → Nat → Cursor → Except Fault Cursor
  | 0, _, c => .ok c
  | n + 1, i, c => do
    let (reading, c) ← c.peek i
    if reading.isEnd then return c
    let c := c.track reading.code
    pass n (i + 1) { c with pos := c.pos + reading.width }

/-- Starts a new window at the cursor's position. -/
def refresh (c : Cursor) : Cursor :=
  let (first, reader) := (c.reader.seek c.pos).read
  { c with reader, window := #[first] }

/-- Consumes `n` characters, or those in front of the end of text if there are fewer. -/
def consume (n : Nat) (c : Cursor) : Except Fault Cursor := do
  let c ← c.pass n 0
  return if c.window.size > 1 || n > 0 then c.refresh else c

end Cursor

end GrammarMachine
