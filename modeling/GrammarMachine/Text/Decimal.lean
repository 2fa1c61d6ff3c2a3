/-!
Decimal numerals. A numeral is a non-empty run of ASCII digits; leading zeros are allowed.
-/

namespace GrammarMachine.Text

/-- Value of a run of digits, most significant first, after a leading part worth `acc`. -/
def digitsValue (acc : Nat) : List Char → Nat
  | [] => acc
  | c :: rest => digitsValue (10 * acc + (c.toNat - '0'.toNat)) rest

/-- Value of a numeral without a sign. -/
def natural? (digits : List Char) : Option Nat :=
  if !digits.isEmpty && digits.all Char.isDigit then some (digitsValue 0 digits) else none

/-- Value of a numeral with an optional sign. -/
def integer? : List Char → Option Int
  | '-' :: digits => (natural? digits).map fun n => -(n : Int)
  | '+' :: digits => (natural? digits).map Int.ofNat
  | digits => (natural? digits).map Int.ofNat

end GrammarMachine.Text
