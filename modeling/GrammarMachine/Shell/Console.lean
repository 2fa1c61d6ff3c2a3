import GrammarMachine.Shell.Path

/-!
What a command can do outside itself: files, settings, the input and two outputs, and a clock.
-/

namespace GrammarMachine

/-- Why a file could not be used. -/
inductive FileFault where
  | missing
  | occupied
  | notDirectory
  | isDirectory
  | nameTooLong
  | other (reason : String)
deriving DecidableEq, Repr

def FileFault.message : FileFault → String
  | missing => "No such file or directory (os error 2)"
  | occupied => "File exists (os error 17)"
  | notDirectory => "Not a directory (os error 20)"
  | isDirectory => "Is a directory (os error 21)"
  | nameTooLong => "File name too long (os error 36)"
  | other reason => reason

class Console (m : Type → Type) where
  readFile : String → m (Except FileFault (List UInt8))
  writeFile : String → List UInt8 → m (Except FileFault Unit)
  /-- Makes one directory, within one that is there. -/
  makeDirectory : String → m (Except FileFault Unit)
  isDirectory : String → m Bool
  readInput : m (List UInt8)
  setting : String → m (Option String)
  print : String → m Unit
  complain : String → m Unit
  /-- Nanoseconds from some fixed moment. -/
  clock : m Nat

/-- Why a command failed, and what lies behind that. -/
structure Failure where
  message : String
  cause : Option String
deriving DecidableEq, Repr

def Failure.text (f : Failure) : String :=
  match f.cause with
  | none => s!"Error: {f.message}\n"
  | some cause => s!"Error: {f.message}\n\nCaused by:\n    {cause}\n"

namespace Shell

variable {m : Type → Type} [Monad m] [Console m]

/-- A command, which may fail. -/
abbrev Task (m : Type → Type) := ExceptT Failure m

def fail {α : Type} (message : String) (cause : Option String) : Task m α :=
  throw ⟨message, cause⟩

def line (text : String) : Task m Unit := Console.print (m := m) (text ++ "\n")

/-- The answer of an operation on files, or a failure behind it. -/
def demand {α : Type} (message : String) (operation : m (Except FileFault α)) : Task m α := do
  match ← operation with
  | .ok value => return value
  | .error fault => fail message (some fault.message)

/-- Makes a directory, unless there is one by that name. -/
def makeOrFind (path : String) : m (Except FileFault Unit) := do
  match ← Console.makeDirectory path with
  | .error .occupied =>
    if ← Console.isDirectory path then return .ok () else return .error .occupied
  | answer => return answer

/-- Makes the first of some directories, where each lies in the next. Those further out are made only
if they are missing. -/
def makeWithin : List String → m (Except FileFault Unit)
  | [] => return .ok ()
  | path :: around => do
    match ← makeOrFind path with
    | .error .missing =>
      match ← makeWithin around with
      | .ok () => makeOrFind path
      | .error fault => return .error fault
    | answer => return answer

/-- Makes a directory and those around it. -/
def makeDirectories (path : String) : m (Except FileFault Unit) :=
  if (Path.parts path).isEmpty then return .ok () else makeWithin (path :: Path.enclosing path)

def decodeText (message : String) (bytes : List UInt8) : Task m String :=
  match String.fromUTF8? bytes.toByteArray with
  | some text => return text
  | none => fail message (some "stream did not contain valid UTF-8")

/-- Milliseconds with three decimals. -/
def milliseconds (nanoseconds : Nat) : String :=
  let micro := (nanoseconds + 500) / 1000
  let part := toString (micro % 1000)
  s!"{micro / 1000}." ++ "".pushn '0' (3 - part.length) ++ part

/-- Runs a command to its exit status. -/
def status (task : Task m Bool) : m UInt32 := do
  match ← task.run with
  | .ok true => return 0
  | .ok false => return 1
  | .error failure =>
    Console.complain failure.text
    return 1

end Shell

end GrammarMachine
