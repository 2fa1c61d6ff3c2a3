/-!
Fixed-width columns and hexadecimal digits.
-/

namespace GrammarMachine.Text

/-- `text` with blanks in front, up to `width` characters. -/
def padLeft (width : Nat) (text : String) : String :=
  "".pushn ' ' (width - text.length) ++ text

/-- `text` with blanks after it, up to `width` characters. -/
def padRight (width : Nat) (text : String) : String :=
  text.pushn ' ' (width - text.length)

/-- Lower-case hexadecimal digits, at least `width` of them. -/
def hex (width n : Nat) : String :=
  let digits := Nat.toDigits 16 n
  String.ofList (List.replicate (width - digits.length) '0' ++ digits)

/-- Upper-case hexadecimal digits, at least `width` of them. -/
def upperHex (width n : Nat) : String :=
  String.ofList ((hex width n).toList.map Char.toUpper)

end GrammarMachine.Text
