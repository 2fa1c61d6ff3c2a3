import GrammarMachine.Text.Decimal

/-!
Messages. A template holds groups made of a caret and the digits after it; a group stands for the
substitution with that number. A catalog overrides the built-in templates key by key.
-/

namespace GrammarMachine

/-- What the machine itself has to say. -/
inductive Key where
  | unexpectedChar
  | unterminatedComment
  | unexpectedCommentEnd
  | expected
  | or
  | endOfText
  | failed
deriving DecidableEq, Repr

namespace Key

def all : List Key :=
  [unexpectedChar, unterminatedComment, unexpectedCommentEnd, expected, or, endOfText, failed]

/-- The name under which a catalog overrides the template. -/
def name : Key → String
  | unexpectedChar => "lex.unexpected_char"
  | unterminatedComment => "lex.unterminated_comment"
  | unexpectedCommentEnd => "lex.unexpected_comment_end"
  | expected => "syntax.expected"
  | or => "syntax.or"
  | endOfText => "syntax.end_of_text"
  | failed => "semantic.failed"

/-- The built-in template. -/
def template : Key → String
  | unexpectedChar => "unexpected character ^0"
  | unterminatedComment => "unterminated comment"
  | unexpectedCommentEnd => "comment end without a matching start"
  | expected => "expected ^0 but read ^1"
  | or => " or "
  | endOfText => "end of text"
  | failed => "^0"

def ofName? (name : String) : Option Key :=
  all.find? fun key => key.name = name

end Key

/-- A message before it is put into words: a key and its substitutions. -/
structure Message where
  key : Key
  args : List String
deriving DecidableEq, Repr

namespace Message

/-- Numbers of substitutions lie below this bound. -/
def indexBound : Nat := 0x10000000000000000

/-- What a group of a caret and `digits` stands for. -/
def expand (subs : List String) (digits : List Char) : List Char :=
  let numbered := do
    let n ← Text.natural? digits
    if n < indexBound then subs[n]? else none
  match numbered with
  | some sub => sub.toList
  | none => '^' :: digits

/-- Expands a template read from the left; `pending` holds the digits of the group being read, last
one first. -/
def expandFrom (subs : List String) : Option (List Char) → List Char → List Char
  | none, [] => []
  | some digits, [] => expand subs digits.reverse
  | none, c :: rest =>
    if c = '^' then expandFrom subs (some []) rest else c :: expandFrom subs none rest
  | some digits, c :: rest =>
    if c.isDigit then expandFrom subs (some (c :: digits)) rest
    else if c = '^' then expand subs digits.reverse ++ expandFrom subs (some []) rest
    else expand subs digits.reverse ++ c :: expandFrom subs none rest

/-- Replaces each group by its substitution. Groups without one stay as they are, and substituted
text is not expanded again. -/
def substitute (template : String) (subs : List String) : String :=
  String.ofList (expandFrom subs none template.toList)

/-- The built-in wording. An unknown key is shown with its substitutions. -/
def render (key : String) (subs : List String) : String :=
  match Key.ofName? key with
  | some known => substitute known.template subs
  | none => if subs.isEmpty then key else key ++ ": " ++ ", ".intercalate subs

end Message

/-- Templates that take the place of the built-in ones. -/
structure Catalog where
  entries : List (String × String)

namespace Catalog

def empty : Catalog := ⟨[]⟩

/-- The newest template for a key wins. -/
def insert (catalog : Catalog) (key template : String) : Catalog :=
  ⟨(key, template) :: catalog.entries⟩

def ofList (entries : List (String × String)) : Catalog :=
  ⟨entries.reverse⟩

def find? (catalog : Catalog) (key : String) : Option String :=
  catalog.entries.lookup key

def render (catalog : Catalog) (key : String) (subs : List String) : String :=
  match catalog.find? key with
  | some template => Message.substitute template subs
  | none => Message.render key subs

end Catalog

end GrammarMachine
