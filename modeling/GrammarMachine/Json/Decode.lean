import GrammarMachine.Json.Basic
import GrammarMachine.Text.Decimal

/-!
Values of fixed shape read from JSON. A record is an object, whose unknown members are ignored and
whose known members occur at most once, or an array of all its fields in order.
-/

namespace GrammarMachine.Json

def bool? : Json → Option Bool
  | bool value => some value
  | _ => none

def text? : Json → Option String
  | string text => text
  | _ => none

/-- The integer that a number literal without fraction and exponent spells. Minus zero is none. -/
def int? : Json → Option Int
  | number literal =>
    match Text.integer? literal.toList with
    | some n => if n = 0 && literal.toList.head? == some '-' then none else some n
    | none => none
  | _ => none

def uint32? (value : Json) : Option UInt32 := do
  let n ← value.int?
  if 0 ≤ n && n < 0x100000000 then some n.toNat.toUInt32 else none

def int32? (value : Json) : Option Int32 := do
  let n ← value.int?
  if -0x80000000 ≤ n && n < 0x80000000 then some (Int32.ofInt n) else none

def option? {α : Type} (read : Json → Option α) : Json → Option (Option α)
  | null => some none
  | value => (read value).map some

def list? {α : Type} (read : Json → Option α) : Json → Option (List α)
  | array items => items.mapM read
  | _ => none

def array? {α : Type} (read : Json → Option α) (value : Json) : Option (Array α) :=
  (list? read value).map List.toArray

/-- The value of a member that may occur once; a second one makes the object unreadable. -/
def member? (name : String) (members : List (Option String × Json)) : Option (Option Json) :=
  match members.filter fun m => m.1 == some name with
  | [] => some none
  | [m] => some (some m.2)
  | _ => none

/-- The fields of a record, in the order of `names`; absent members are absent here. -/
def fields? (names : List String) : Json → Option (List (Option Json))
  | object members =>
    if members.all fun m => m.1.isSome then names.mapM fun name => member? name members else none
  | array items => if items.length = names.length then some (items.map some) else none
  | _ => none

/-- A field that has to be present. -/
def required? {α : Type} (read : Json → Option α) (field : Option Json) : Option α :=
  field.bind read

/-- A field that may be absent or null. -/
def optional? {α : Type} (read : Json → Option α) : Option Json → Option (Option α)
  | none => some none
  | some value => option? read value

/-- The variant that a value names: a string for a bare one, an object with one member otherwise. -/
def variant? : Json → Option (String × Option Json)
  | string (some name) => some (name, none)
  | object [(some name, value)] => some (name, some value)
  | _ => none

/-- A variant without a value. -/
def isBare : Option Json → Bool
  | none => true
  | some null => true
  | some _ => false

end GrammarMachine.Json
