/-!
Paths with slashes between their parts. A single dot names the directory it stands in and a double
dot the one above; a path that starts with a slash starts at the root.
-/

namespace GrammarMachine.Path

/-- What stands between the separators, in order. There is always one piece more than separators. -/
def pieces (separator : Char) : List Char → List (List Char)
  | [] => [[]]
  | c :: rest =>
    if c = separator then [] :: pieces separator rest
    else
      match pieces separator rest with
      | [] => [[c]]
      | piece :: more => (c :: piece) :: more

/-- The parts of a path, dots included. -/
def parts (path : String) : List String :=
  ((pieces '/' path.toList).filter fun piece => !piece.isEmpty).map String.ofList

def isAbsolute (path : String) : Bool := path.toList.head? == some '/'

/-- Does the path end in a slash? Then it can only name a directory. -/
def endsInSlash (path : String) : Bool := path.toList.getLast? == some '/'

/-- Without the single dots at the end. -/
def withoutDots (parts : List String) : List String :=
  (parts.reverse.dropWhile fun part => part == ".").reverse

/-- The path that starts as `path` does and has these parts. -/
def withParts (path : String) (parts : List String) : String :=
  (if isAbsolute path then "/" else "") ++ "/".intercalate parts

/-- Everything that `parts` starts with behind `above`, shortest first. -/
def stages (above : List String) : List String → List (List String)
  | [] => []
  | part :: rest => (above ++ [part]) :: stages (above ++ [part]) rest

/-- The directories around what a path names, innermost first. A dot at the end names nothing of its
own, and a dot in between is no further directory. -/
def enclosing (path : String) : List String :=
  let around := (withoutDots (parts path)).dropLast
  ((stages [] around).filter fun stage => stage.getLast? != some ".").reverse.map (withParts path)

/-- What stands behind the last dot of a name, unless that dot comes first. -/
def extensionOf? (name : String) : Option String :=
  match (pieces '.' name.toList).reverse with
  | [] => none
  | [_] => none
  | [_, []] => none
  | ext :: _ => some (String.ofList ext)

/-- The extension of the last part, single dots left out. -/
def extension? (path : String) : Option String :=
  match (withoutDots (parts path)).getLast? with
  | none => none
  | some ".." => none
  | some name => extensionOf? name

def hasExtension (path ext : String) : Bool := extension? path == some ext

/-- `name` within the directory `dir`. -/
def join (dir name : String) : String :=
  if dir.isEmpty || endsInSlash dir then dir ++ name else dir ++ "/" ++ name

end GrammarMachine.Path
