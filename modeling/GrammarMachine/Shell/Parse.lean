import GrammarMachine.Shell.Tables
import GrammarMachine.Graph.Render
import GrammarMachine.Parse.Run

/-!
The command that parses a text with a grammar file and shows the tree.
-/

namespace GrammarMachine

/-- The counts of a parse, in order. -/
def Stats.toJson (s : Stats) : Json :=
  .record [("tokens", .nat s.tokens), ("shifts", .nat s.shifts), ("reductions", .nat s.reductions),
    ("actions", .nat s.actions), ("hard_calls", .nat s.hardCalls), ("deferred", .nat s.deferred),
    ("replays", .nat s.replays), ("recoveries", .nat s.recoveries),
    ("lexical_errors", .nat s.lexicalErrors), ("syntax_errors", .nat s.syntaxErrors),
    ("semantic_errors", .nat s.semanticErrors)]

/-- The catalog that an object of strings spells; the last of repeated keys counts. -/
def Catalog.ofJson? : Json → Option Catalog
  | .object members => do
    let entries ← members.mapM fun (key, value) => return (← key, ← value.text?)
    return .ofList entries
  | _ => none

def Catalog.parse? (bytes : List UInt8) : Option Catalog :=
  (Json.parse? bytes).bind ofJson?

def ErrorKind.name : ErrorKind → String
  | lexical => "Lexical"
  | syntactic => "Syntactic"
  | semantic => "Semantic"

namespace Shell

/-- State of a host that shows calls as they were written. -/
structure Echo where
  catalog : Catalog
  reports : Array Report

namespace Echo

/-- A parameter, for the eye. -/
def argument : Node String → String
  | .text content _ _ => content
  | .user _ (some value) _ _ => value
  | .term function _ _ _ => s!"t{function}"
  | _ => "_"

def answer (call : Call String) : String :=
  let args := (List.range call.params.length).map fun i =>
    ((call.param? i).map argument).getD "_"
  s!"f{call.function}(" ++ ", ".intercalate args ++ ")"

def host : Host Echo String where
  execute call _ e := (.value (answer call), e)
  error report _ e := ([], { e with reports := e.reports.push report })
  message e := e.catalog.render

end Echo

def reportLine (r : Report) : String :=
  s!"[ccrun] {r.kind.name} error at {r.origin.line}:{r.origin.col}: {r.message}\n"

/-- Steps after which a parse is not waited for any longer. -/
def stepLimit : Nat := 0x1000000000000000

variable {m : Type → Type} [Monad m] [Console m]

/-- Is a variable set to something other than zero? -/
def isSet (name : String) : Task m Bool := do
  match ← Console.setting (m := m) name with
  | some value => return value != "" && value != "0"
  | none => return false

/-- The text to parse: a file, or the input. -/
def readText : List String → Task m String
  | path :: _ => do
    let message := s!"failed to read {path}"
    decodeText message (← demand message (Console.readFile path))
  | [] => do decodeText "failed to read stdin" (← Console.readInput (m := m))

def readCatalog : Task m Catalog := do
  match ← Console.setting (m := m) "CCRUN_MESSAGES" with
  | none => return .empty
  | some path =>
    let bytes ← demand s!"failed to read {path}" (Console.readFile path)
    match Catalog.parse? bytes with
    | some catalog => return catalog
    | none => fail s!"bad message catalog {path}" (some "not an object of strings")

/-- Shows the tree of an outcome. -/
def showTree (outcome : Outcome Echo String) : Task m Unit := do
  match outcome.root with
  | none => line "[ccrun] no result (input not accepted)"
  | some root =>
    match outcome.graph.snapshot root with
    | .ok tree => line (tree.toJson Json.text).pretty
    | .error _ => fail "the result has no tree" none

/-- Parses a text and shows the tree and the counts. Tells whether there was no error. -/
def parse (args : List String) : Task m Bool := do
  match args with
  | [] => fail "usage: ccrun <tables.bin|tables.json> [input]" none
  | path :: rest =>
    let started ← Console.clock (m := m)
    let g ← load path
    let loaded ← Console.clock (m := m)
    line s!"[ccrun] loaded {path} | {summary g} | {milliseconds (loaded - started)} ms"
    let text ← readText rest
    let catalog ← readCatalog
    let options : Options := ⟨← isSet "CCRUN_LOCK", ← isSet "CCRUN_STOP"⟩
    let started ← Console.clock (m := m)
    match GrammarMachine.parse g Echo.host options stepLimit (Source.ofText text false)
        ⟨catalog, #[]⟩ with
    | .error _ | .ok none => fail "the parse did not end" none
    | .ok (some outcome) =>
      let ended ← Console.clock (m := m)
      outcome.host.reports.forM fun r => Console.complain (m := m) (reportLine r)
      showTree outcome
      line (s!"[ccrun] ok={outcome.ok} accepted={outcome.accepted} "
        ++ s!"errors={outcome.host.reports.size} nodes={outcome.graph.size} | parse "
        ++ s!"{milliseconds (ended - started)} ms")
      line ("[ccrun] stats " ++ outcome.stats.toJson.compact)
      return outcome.ok

end Shell

end GrammarMachine
