/-!
JSON values. Numbers keep the text they were written with; objects keep their members in order,
repeated keys included.
-/

namespace GrammarMachine

inductive Json where
  | null
  | bool (value : Bool)
  /-- The literal, as written. -/
  | number (literal : String)
  /-- Absent if the literal spells no text: an unpaired surrogate, or bytes that are not UTF-8. -/
  | string (text : Option String)
  | array (items : List Json)
  /-- Keys are absent under the same conditions as strings. -/
  | object (members : List (Option String × Json))
deriving Repr

namespace Json

def text (s : String) : Json := string (some s)

def nat (n : Nat) : Json := number (toString n)

def int (n : Int) : Json := number (toString n)

/-- An object with these members. -/
def record (members : List (String × Json)) : Json :=
  object (members.map fun (key, value) => (some key, value))

/-- A value, or null in its absence. -/
def option {α : Type} (f : α → Json) : Option α → Json
  | some a => f a
  | none => null

def list {α : Type} (f : α → Json) (items : List α) : Json := array (items.map f)

end Json

end GrammarMachine
