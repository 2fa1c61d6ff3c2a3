import GrammarMachine.Shell.Console
import GrammarMachine.Shell.Path
import GrammarMachine.Grammar.Listing
import GrammarMachine.Grammar.Load
import GrammarMachine.Json.Writer
import GrammarMachine.Samples.All

/-!
Commands on grammar files. A file whose name ends in `.json` holds the JSON form, any other the
binary one.
-/

namespace GrammarMachine.Shell

variable {m : Type → Type} [Monad m] [Console m]

def isJson (path : String) : Bool := Path.hasExtension path "json"

def load (path : String) : Task m Grammar := do
  let message := s!"failed to load {path}"
  let bytes ← demand message (Console.readFile path)
  match if isJson path then Grammar.decodeJson bytes else Grammar.decode bytes with
  | .ok g => return g
  | .error e => fail message (some e.message)

/-- The contents of a file for a grammar, in the form that its name asks for. -/
def contents (path : String) (g : Grammar) : List UInt8 :=
  if isJson path then g.toJson.pretty.toUTF8.data.toList else g.encode

/-- Lists a grammar file, or writes it under another name in the form that name asks for. -/
def dump (args : List String) : Task m Bool := do
  match args with
  | [] => fail "usage: dump_tables <tables.bin|tables.json> [out.bin|out.json]" none
  | input :: rest =>
    let g ← load input
    match rest with
    | [] => g.listing.forM line
    | out :: _ =>
      match ← Console.writeFile (m := m) out (contents out g) with
      | .ok () => line s!"[dump_tables] wrote {out}"
      | .error fault => fail fault.message none
    return true

/-- What a grammar holds, in numbers. -/
def summary (g : Grammar) : String :=
  s!"{g.tokens.size} tokens, {g.lexer.states.size} lexer states, {g.states.size} parser states, "
    ++ s!"{g.rules.size} rules"

/-- Writes one sample grammar in both forms, having read its binary form back. -/
def writeSample (dir name : String) (g : Grammar) : Task m Unit := do
  match g.check with
  | .ok () => pure ()
  | .error defect =>
    fail s!"demo table {name} is malformed" (some (LoadError.invalid defect).message)
  let bytes := g.encode
  match Grammar.decode bytes with
  | .error e => fail e.message none
  | .ok back =>
    if back ≠ g then fail s!"{name}: binary round trip changed the table" none
  for ext in [".bin", ".json"] do
    let path := Path.join dir (name ++ ext)
    demand s!"failed to write {path}" (Console.writeFile path (contents path g))
  line s!"[gen_demo_tables] {name}: {summary g}, {bytes.length} bytes"

/-- Writes the sample grammars into a directory. -/
def samples (args : List String) : Task m Bool := do
  let dir := args.headD "tables"
  demand s!"failed to create {dir}" (makeDirectories dir)
  Samples.all.forM fun (name, g) => writeSample dir name g
  line s!"[gen_demo_tables] wrote {dir}"
  return true

end GrammarMachine.Shell
