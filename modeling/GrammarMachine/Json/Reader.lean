import GrammarMachine.Json.Basic

/-!
Reading JSON from bytes. The grammar is the strict one: no trailing commas, no leading zeros, no
control characters in strings, nothing but blanks around the value. Whether a string spells a text
is left to those who need the text.
-/

namespace GrammarMachine.Json

/-- The byte of an ASCII character. -/
def ascii (c : Char) : UInt8 := c.toNat.toUInt8

def isBlank (b : UInt8) : Bool :=
  b == ascii ' ' || b == ascii '\n' || b == ascii '\t' || b == ascii '\r'

def skipBlanks (bytes : List UInt8) : List UInt8 := bytes.dropWhile isBlank

/-! ## Strings -/

/-- A part of a string literal: a byte as it stands, or an escape for a code unit. -/
inductive Piece where
  | byte (b : UInt8)
  | unit (code : Nat)
deriving DecidableEq, Repr

def hexValue? (b : UInt8) : Option Nat :=
  if ascii '0' ≤ b && b ≤ ascii '9' then some (b.toNat - '0'.toNat)
  else if ascii 'a' ≤ b && b ≤ ascii 'f' then some (b.toNat - 'a'.toNat + 10)
  else if ascii 'A' ≤ b && b ≤ ascii 'F' then some (b.toNat - 'A'.toNat + 10)
  else none

/-- The character named by a letter behind a backslash. -/
def shortEscape? (b : UInt8) : Option UInt8 :=
  if b == ascii '"' || b == ascii '\\' || b == ascii '/' then some b
  else if b == ascii 'b' then some 8
  else if b == ascii 'f' then some 12
  else if b == ascii 'n' then some 10
  else if b == ascii 'r' then some 13
  else if b == ascii 't' then some 9
  else none

/-- Adds a piece in front of those that were read. -/
def consPiece (piece : Piece) : Option (List Piece × List UInt8) → Option (List Piece × List UInt8)
  | some (pieces, rest) => some (piece :: pieces, rest)
  | none => none

/-- The code unit spelled by four hexadecimal digits. -/
def unit? (a b c d : UInt8) : Option Nat := do
  return ((← hexValue? a) * 16 + (← hexValue? b)) * 256 + ((← hexValue? c) * 16 + (← hexValue? d))

/-- The pieces of a string literal up to the closing quote, and what follows it. -/
def pieces : List UInt8 → Option (List Piece × List UInt8)
  | [] => none
  | 0x5c :: 0x75 :: a :: b :: c :: d :: rest =>
    match unit? a b c d with
    | some code => consPiece (.unit code) (pieces rest)
    | none => none
  | 0x5c :: letter :: rest =>
    match shortEscape? letter with
    | some byte => consPiece (.byte byte) (pieces rest)
    | none => none
  | byte :: rest =>
    if byte == ascii '"' then some ([], rest)
    else if byte == ascii '\\' || byte < 0x20 then none
    else consPiece (.byte byte) (pieces rest)

/-- UTF-8 bytes of a code point. -/
def utf8 (code : Nat) : List UInt8 := (String.ofList [Char.ofNat code]).toUTF8.data.toList

def isHighSurrogate (code : Nat) : Bool := 0xd800 ≤ code && code < 0xdc00

def isLowSurrogate (code : Nat) : Bool := 0xdc00 ≤ code && code < 0xe000

/-- The bytes that pieces spell. Surrogates have to come in pairs. -/
def spell : List Piece → Option (List UInt8)
  | [] => some []
  | .byte b :: rest => (spell rest).map (b :: ·)
  | .unit high :: .unit low :: rest =>
    if isHighSurrogate high then
      if isLowSurrogate low then
        (spell rest).map (utf8 (0x10000 + (high - 0xd800) * 0x400 + (low - 0xdc00)) ++ ·)
      else none
    else if isLowSurrogate high then none
    else (spell (.unit low :: rest)).map (utf8 high ++ ·)
  | .unit code :: rest =>
    if isHighSurrogate code || isLowSurrogate code then none
    else (spell rest).map (utf8 code ++ ·)

/-- The text that pieces spell. -/
def spellText (pieces : List Piece) : Option String := do
  let bytes ← spell pieces
  String.fromUTF8? bytes.toByteArray

/-- A string literal behind its opening quote. -/
def stringLiteral (bytes : List UInt8) : Option (Option String × List UInt8) := do
  let (pieces, rest) ← pieces bytes
  return (spellText pieces, rest)

/-! ## Numbers -/

def isDigit (b : UInt8) : Bool := ascii '0' ≤ b && b ≤ ascii '9'

/-- One or more digits. -/
def digits? (bytes : List UInt8) : Option (List UInt8 × List UInt8) :=
  let digits := bytes.takeWhile isDigit
  if digits.isEmpty then none else some (digits, bytes.dropWhile isDigit)

/-- The digits in front of a decimal point; a zero stands alone. -/
def whole? (bytes : List UInt8) : Option (List UInt8 × List UInt8) := do
  let (digits, rest) ← digits? bytes
  if digits.head? == some (ascii '0') && 1 < digits.length then none
  return (digits, rest)

def fraction? : List UInt8 → Option (List UInt8 × List UInt8)
  | [] => some ([], [])
  | b :: rest =>
    if b == ascii '.' then do
      let (digits, rest) ← digits? rest
      return (b :: digits, rest)
    else some ([], b :: rest)

def sign : List UInt8 → List UInt8 × List UInt8
  | [] => ([], [])
  | b :: rest => if b == ascii '+' || b == ascii '-' then ([b], rest) else ([], b :: rest)

def exponent? : List UInt8 → Option (List UInt8 × List UInt8)
  | [] => some ([], [])
  | b :: rest =>
    if b == ascii 'e' || b == ascii 'E' then do
      let (sign, rest) := sign rest
      let (digits, rest) ← digits? rest
      return (b :: sign ++ digits, rest)
    else some ([], b :: rest)

/-- A number literal without its sign. -/
def unsigned? (bytes : List UInt8) : Option (List UInt8 × List UInt8) := do
  let (whole, rest) ← whole? bytes
  let (fraction, rest) ← fraction? rest
  let (exponent, rest) ← exponent? rest
  return (whole ++ fraction ++ exponent, rest)

def literal (bytes : List UInt8) : String :=
  String.ofList (bytes.map fun b => Char.ofNat b.toNat)

/-- A number literal. -/
def number? : List UInt8 → Option (String × List UInt8)
  | [] => none
  | b :: rest =>
    if b == ascii '-' then do
      let (digits, rest) ← unsigned? rest
      return (literal (b :: digits), rest)
    else do
      let (digits, rest) ← unsigned? (b :: rest)
      return (literal digits, rest)

/-! ## Values -/

/-- The rest of `bytes` behind `word`. -/
def behind? : List Char → List UInt8 → Option (List UInt8)
  | [], bytes => some bytes
  | c :: word, b :: bytes => if b == ascii c then behind? word bytes else none
  | _ :: _, [] => none

mutual

/-- A value behind blanks; `fuel` bounds nesting and length. -/
def value? : Nat → List UInt8 → Option (Json × List UInt8)
  | 0, _ => none
  | fuel + 1, bytes =>
    match skipBlanks bytes with
    | [] => none
    | b :: rest =>
      if b == ascii '\x7b' then
        match skipBlanks rest with
        | 0x7d :: rest => some (.object [], rest)
        | rest => do
          let (members, rest) ← members? fuel rest
          return (.object members, rest)
      else if b == ascii '[' then
        match skipBlanks rest with
        | 0x5d :: rest => some (.array [], rest)
        | rest => do
          let (items, rest) ← items? fuel rest
          return (.array items, rest)
      else if b == ascii '"' then do
        let (text, rest) ← stringLiteral rest
        return (.string text, rest)
      else if b == ascii 't' then (behind? "rue".toList rest).map (.bool true, ·)
      else if b == ascii 'f' then (behind? "alse".toList rest).map (.bool false, ·)
      else if b == ascii 'n' then (behind? "ull".toList rest).map (.null, ·)
      else do
        let (text, rest) ← number? (b :: rest)
        return (.number text, rest)

/-- The items of an array up to its closing bracket. -/
def items? : Nat → List UInt8 → Option (List Json × List UInt8)
  | 0, _ => none
  | fuel + 1, bytes => do
    let (item, rest) ← value? fuel bytes
    match skipBlanks rest with
    | 0x5d :: rest => return ([item], rest)
    | 0x2c :: rest =>
      let (items, rest) ← items? fuel rest
      return (item :: items, rest)
    | _ => none

/-- The members of an object up to its closing brace. -/
def members? : Nat → List UInt8 → Option (List (Option String × Json) × List UInt8)
  | 0, _ => none
  | fuel + 1, bytes =>
    match skipBlanks bytes with
    | 0x22 :: rest => do
      let (key, rest) ← stringLiteral rest
      match skipBlanks rest with
      | 0x3a :: rest =>
        let (value, rest) ← value? fuel rest
        match skipBlanks rest with
        | 0x7d :: rest => return ([(key, value)], rest)
        | 0x2c :: rest =>
          let (members, rest) ← members? fuel rest
          return ((key, value) :: members, rest)
        | _ => none
      | _ => none
    | _ => none

end

/-- The value that `bytes` spell, blanks around it allowed. -/
def parse? (bytes : List UInt8) : Option Json := do
  let (value, rest) ← value? (2 * bytes.length + 2) bytes
  if (skipBlanks rest).isEmpty then some value else none

end GrammarMachine.Json
