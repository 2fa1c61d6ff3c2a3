import GrammarMachine.Json.Basic
import GrammarMachine.Text.Layout

/-!
Writing JSON: without blanks, or with one item to a line, two blanks for each level.
-/

namespace GrammarMachine.Json

/-- A character within a string literal. Only quotes, backslashes and controls are escaped. -/
def escape (c : Char) : String :=
  if c = '"' then "\\\""
  else if c = '\\' then "\\\\"
  else if c = '\n' then "\\n"
  else if c = '\r' then "\\r"
  else if c = '\t' then "\\t"
  else if c.toNat = 8 then "\\b"
  else if c.toNat = 12 then "\\f"
  else if c.toNat < 0x20 then "\\u" ++ Text.hex 4 c.toNat
  else String.ofList [c]

def quote (text : String) : String :=
  text.toList.foldl (fun out c => out ++ escape c) "\"" ++ "\""

/-- A string without a text is written as an empty one. -/
def quoteText (text : Option String) : String := quote (text.getD "")

mutual

/-- The value in one line, without blanks. -/
def compact : Json → String
  | null => "null"
  | bool value => if value then "true" else "false"
  | number literal => literal
  | string text => quoteText text
  | array items => "[" ++ ",".intercalate (compactItems items) ++ "]"
  | object members => "\x7b" ++ ",".intercalate (compactMembers members) ++ "\x7d"

def compactItems : List Json → List String
  | [] => []
  | item :: rest => compact item :: compactItems rest

def compactMembers : List (Option String × Json) → List String
  | [] => []
  | (key, value) :: rest => (quoteText key ++ ":" ++ compact value) :: compactMembers rest

end

/-- The start of a line `level` levels deep. -/
def indent (level : Nat) : String := "\n".pushn ' ' (2 * level)

/-- Lines between brackets; empty brackets stay together. -/
def block (level : Nat) (opening closing : String) (lines : List String) : String :=
  if lines.isEmpty then opening ++ closing
  else
    opening ++ indent (level + 1) ++ ("," ++ indent (level + 1)).intercalate lines
      ++ indent level ++ closing

mutual

/-- The value with one item to a line, starting `level` levels deep. -/
def prettyAt (level : Nat) : Json → String
  | null => "null"
  | bool value => if value then "true" else "false"
  | number literal => literal
  | string text => quoteText text
  | array items => block level "[" "]" (prettyItems (level + 1) items)
  | object members => block level "\x7b" "\x7d" (prettyMembers (level + 1) members)

def prettyItems (level : Nat) : List Json → List String
  | [] => []
  | item :: rest => prettyAt level item :: prettyItems level rest

def prettyMembers (level : Nat) : List (Option String × Json) → List String
  | [] => []
  | (key, value) :: rest =>
    (quoteText key ++ ": " ++ prettyAt level value) :: prettyMembers level rest

end

/-- The value with one item to a line. -/
def pretty (value : Json) : String := prettyAt 0 value

end GrammarMachine.Json
