/-!
Characters and their codes. A code is a signed word; only some codes are characters.
-/

namespace GrammarMachine.Text

/-- The character with this code point, if it is one. -/
def scalar? (code : UInt32) : Option Char :=
  if h : code.isValidChar then some ⟨code, h⟩ else none

/-- The code of a character. -/
def code (c : Char) : Int32 := c.val.toInt32

/-- Control characters: the two blocks of general category Cc. -/
def isControl (c : Char) : Bool :=
  c.toNat < 0x20 || (0x7f ≤ c.toNat && c.toNat ≤ 0x9f)

theorem scalar?_val (c : Char) : scalar? c.val = some c := by
  simp [scalar?, c.valid]

end GrammarMachine.Text
