import GrammarMachine.Shell.Console

/-!
A console that lives in memory: a tree of files, settings, an input, and what was written. Commands
run on it are plain functions. A path is followed part by part from the root or from the working
directory, and every part but the last has to be a directory.
-/

namespace GrammarMachine

/-- What a path leads to. -/
inductive Entry where
  | file (bytes : List UInt8)
  | directory
deriving DecidableEq, Repr

structure Memory where
  /-- Files and directories by their place, the names that lead there from the root. The root itself
  is not listed. -/
  entries : List (List String × Entry)
  /-- Place of the working directory. -/
  here : List String
  settings : List (String × String)
  input : List UInt8
  output : String
  complaints : String

namespace Memory

def find? (mem : Memory) (place : List String) : Option Entry :=
  if place.isEmpty then some .directory else mem.entries.lookup place

/-- Puts an entry in place of another, or at the end. -/
def put (mem : Memory) (place : List String) (entry : Entry) : Memory :=
  if (mem.entries.lookup place).isSome then
    { mem with entries := mem.entries.map fun e => if e.1 = place then (place, entry) else e }
  else { mem with entries := mem.entries ++ [(place, entry)] }

/-- Most bytes in a name. -/
def nameLimit : Nat := 255

/-- Most bytes in a path. -/
def pathLimit : Nat := 4095

/-- What a directory holds by a name. -/
def entryIn (mem : Memory) (directory : List String) (name : String) :
    Except FileFault (Option Entry) :=
  if nameLimit < name.utf8ByteSize then .error .nameTooLong
  else .ok (mem.find? (directory ++ [name]))

/-- The directory that a part leads to from another one. There is nothing above the root. -/
def enter (mem : Memory) (place : List String) (part : String) : Except FileFault (List String) :=
  if part = "." then .ok place
  else if part = ".." then .ok place.dropLast
  else do
    match ← mem.entryIn place part with
    | none => .error .missing
    | some (.file _) => .error .notDirectory
    | some .directory => .ok (place ++ [part])

def walk (mem : Memory) : List String → List String → Except FileFault (List String)
  | place, [] => .ok place
  | place, part :: rest => do mem.walk (← mem.enter place part) rest

/-- Where a path ends. -/
inductive Ending where
  /-- At a directory, reached without naming it. -/
  | directory
  /-- At a name in a directory, which may or may not be there. -/
  | name (directory : List String) (name : String)
deriving DecidableEq, Repr

/-- Follows a path up to its last part. -/
def follow (mem : Memory) (path : String) : Except FileFault Ending :=
  if path.isEmpty then .error .missing
  else if pathLimit < path.utf8ByteSize then .error .nameTooLong
  else do
    let parts := Path.parts path
    let place ← mem.walk (if Path.isAbsolute path then [] else mem.here) parts.dropLast
    match parts.getLast? with
    | none | some "." | some ".." => return .directory
    | some name => return .name place name

def readFile (mem : Memory) (path : String) : Except FileFault (List UInt8) := do
  match ← mem.follow path with
  | .directory => .error .isDirectory
  | .name directory name =>
    match ← mem.entryIn directory name with
    | none => .error .missing
    | some .directory => .error .isDirectory
    | some (.file bytes) => if Path.endsInSlash path then .error .notDirectory else .ok bytes

def writeFile (mem : Memory) (path : String) (bytes : List UInt8) : Except FileFault Memory := do
  match ← mem.follow path with
  | .directory => .error .isDirectory
  | .name directory name =>
    if Path.endsInSlash path then .error .isDirectory
    else
      match ← mem.entryIn directory name with
      | some .directory => .error .isDirectory
      | some (.file _) | none => .ok (mem.put (directory ++ [name]) (.file bytes))

def makeDirectory (mem : Memory) (path : String) : Except FileFault Memory := do
  match ← mem.follow path with
  | .directory => .error .occupied
  | .name directory name =>
    match ← mem.entryIn directory name with
    | some _ => .error .occupied
    | none => .ok (mem.put (directory ++ [name]) .directory)

def isDirectory (mem : Memory) (path : String) : Bool :=
  match mem.follow path with
  | .error _ => false
  | .ok .directory => true
  | .ok (.name directory name) =>
    match mem.entryIn directory name with
    | .ok (some .directory) => true
    | _ => false

/-- Keeps the new memory of an operation that succeeded. -/
def update (operation : Memory → Except FileFault Memory) : StateM Memory (Except FileFault Unit) :=
  fun mem =>
    match operation mem with
    | .ok mem => (.ok (), mem)
    | .error fault => (.error fault, mem)

instance : Console (StateM Memory) where
  readFile path := return (← get).readFile path
  writeFile path bytes := update fun mem => mem.writeFile path bytes
  makeDirectory path := update fun mem => mem.makeDirectory path
  isDirectory path := return (← get).isDirectory path
  readInput := return (← get).input
  setting name := return (← get).settings.lookup name
  print text := modify fun mem => { mem with output := mem.output ++ text }
  complain text := modify fun mem => { mem with complaints := mem.complaints ++ text }
  clock := return 0

end Memory

end GrammarMachine
