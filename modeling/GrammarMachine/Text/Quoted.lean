import GrammarMachine.Text.Hidden
import GrammarMachine.Text.Layout

/-!
Quoted text: a character between single quotes, a string between double quotes. The quote in use
and the backslash are escaped, a few controls have short names, and hidden characters are written
by their code point in braces.
-/

namespace GrammarMachine.Text

/-- One character inside `quote` marks. -/
def escape (quote : Char) (c : Char) : String :=
  if c = quote || c = '\\' then String.ofList ['\\', c]
  else if c.toNat = 0 then "\\0"
  else if c = '\t' then "\\t"
  else if c = '\n' then "\\n"
  else if c = '\r' then "\\r"
  else if isHidden c then "\\u\x7b" ++ hex 1 c.toNat ++ "\x7d"
  else String.ofList [c]

def quoteChar (c : Char) : String :=
  "'" ++ escape '\'' c ++ "'"

def quoteString (text : String) : String :=
  "\"" ++ String.join (text.toList.map (escape '"')) ++ "\""

end GrammarMachine.Text
