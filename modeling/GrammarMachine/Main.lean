import GrammarMachine.Shell.Parse

/-!
The command line: `parse`, `dump` and `samples`, each with its own arguments.
-/

namespace GrammarMachine

def FileFault.ofError : IO.Error → FileFault
  | .noFileOrDirectory .. => .missing
  | .alreadyExists .. => .occupied
  | .inappropriateType _ code _ =>
    if code = 21 || code = -21 then .isDirectory else .notDirectory
  | .invalidArgument _ code text =>
    if code = 36 || code = -36 then .nameTooLong else .other text
  | e => .other (toString e)

/-- The answer of an operation, with what it throws as a value. -/
def caught {α : Type} (operation : IO α) : IO (Except FileFault α) := do
  try return .ok (← operation)
  catch e => return .error (FileFault.ofError e)

/-- Reads a stream to its end. -/
partial def readAll (stream : IO.FS.Stream) (sofar : ByteArray) : IO ByteArray := do
  let chunk ← stream.read 65536
  if chunk.isEmpty then return sofar else readAll stream (sofar ++ chunk)

instance : Console IO where
  readFile path := caught do return (← IO.FS.readBinFile path).data.toList
  writeFile path bytes := caught (IO.FS.writeBinFile path bytes.toByteArray)
  makeDirectory path := caught (IO.FS.createDir path)
  isDirectory path := do
    match ← caught (IO.FS.realPath path) with
    | .ok place => place.isDir
    | .error _ => return false
  readInput := do return (← readAll (← IO.getStdin) .empty).data.toList
  setting name := IO.getEnv name
  print text := IO.print text
  complain text := IO.eprint text
  clock := IO.monoNanosNow

end GrammarMachine

open GrammarMachine in
def main (args : List String) : IO UInt32 :=
  match args with
  | "parse" :: rest => Shell.status (Shell.parse rest)
  | "dump" :: rest => Shell.status (Shell.dump rest)
  | "samples" :: rest => Shell.status (Shell.samples rest)
  | _ => Shell.status (Shell.fail "usage: grammar-machine <parse|dump|samples> [args]" none)
