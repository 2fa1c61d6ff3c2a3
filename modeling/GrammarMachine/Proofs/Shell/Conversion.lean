import GrammarMachine.Proofs.Grammar.Canonical
import GrammarMachine.Proofs.Grammar.JsonForm
import GrammarMachine.Proofs.Shell.Files
import GrammarMachine.Samples.Keyword
import GrammarMachine.Shell.Tables

/-!
Grammar files are converted without loss. A grammar that passes its check is read back from its JSON
form; so the command that writes a binary file as JSON, and then the JSON file as binary, ends with
the bytes that it started from.
-/

namespace GrammarMachine.Shell

section Tasks

variable {α β : Type} {mem mem' mem'' : Memory} {a : α} {b : β}

/-- The task succeeds with `a` and leaves `mem'` behind. -/
def Runs (task : Task (StateM Memory) α) (mem : Memory) (a : α) (mem' : Memory) : Prop :=
  task.run.run mem = (.ok a, mem')

theorem runs_pure (a : α) (mem : Memory) : Runs (pure a) mem a mem := rfl

theorem Runs.bind {task : Task (StateM Memory) α} {rest : α → Task (StateM Memory) β}
    (first : Runs task mem a mem') (second : Runs (rest a) mem' b mem'') :
    Runs (task >>= rest) mem b mem'' := by
  rw [Runs, ExceptT.run_bind, StateT.run_bind, first]
  exact second

/-- An operation of the console cannot fail by itself. -/
theorem runs_lift {operation : StateM Memory α} (answer : operation mem = (a, mem')) :
    Runs (liftM operation) mem a mem' := by
  change (Except.ok (operation mem).1, (operation mem).2) = _
  rw [answer]

theorem runs_demand {operation : StateM Memory (Except FileFault α)} (message : String)
    (answer : operation mem = (.ok a, mem')) : Runs (demand message operation) mem a mem' :=
  (runs_lift answer).bind (runs_pure a mem')

end Tasks

variable {mem mem' : Memory} {input out : String} {place : List String} {g : Grammar}

/-- What a file holds, in the form that its name promises. -/
def Holds (mem : Memory) (path : String) (g : Grammar) : Prop :=
  ∃ bytes, mem.readFile path = .ok bytes ∧
    (if isJson path then Grammar.decodeJson bytes else Grammar.decode bytes) = .ok g

theorem runs_load (holds : Holds mem input g) : Runs (load input) mem g mem := by
  obtain ⟨bytes, read, loaded⟩ := holds
  have answer : (Console.readFile input : StateM Memory _) mem = (.ok bytes, mem) :=
    congrArg (·, mem) read
  refine (runs_demand _ answer).bind ?_
  rw [loaded]
  exact runs_pure g mem

/-- The exit status of the command on grammar files, and the memory that it leaves behind. -/
def dumped (mem : Memory) (args : List String) : UInt32 × Memory :=
  (status (dump args) : StateM Memory UInt32).run mem

/-- The grammar in one file is written to another. The line that says so touches no file. -/
theorem dumped_of_holds (holds : Holds mem input g)
    (written : mem.writeFile out (contents out g) = .ok mem') :
    ∃ mem'', dumped mem [input, out] = (0, mem'') ∧ mem''.entries = mem'.entries ∧
      mem''.here = mem'.here := by
  let mem'' := { mem' with output := mem'.output ++ (s!"[dump_tables] wrote {out}" ++ "\n") }
  have ran : Runs (dump [input, out]) mem true mem'' :=
    (runs_load holds).bind ((runs_lift (Memory.update_of_eq written)).bind
      ((runs_lift rfl).bind (runs_pure true _)))
  refine ⟨mem'', ?_, rfl, rfl⟩
  rw [dumped, status, StateT.run_bind, ran]
  rfl

/-- Where a file can be written, the command writes the grammar in the form that its name asks for,
and leaves everything else in its place. -/
theorem dumped_writes (holds : Holds mem input g) (names : mem.Names out place)
    (free : mem.find? place ≠ some .directory) :
    ∃ mem', dumped mem [input, out] = (0, mem') ∧ mem.Keeps mem' ∧
      mem'.readFile out = .ok (contents out g) ∧
      ∀ other, mem'.find? other =
        if other = place then some (.file (contents out g)) else mem.find? other := by
  have written : mem.writeFile out (contents out g) =
      .ok (mem.put place (.file (contents out g))) :=
    Memory.writeFile_eq_ok_iff.2 ⟨place, names, free, rfl⟩
  have kept : mem.Keeps (mem.put place (.file (contents out g))) := Memory.keeps_put names free
  have found (other : List String) : (mem.put place (.file (contents out g))).find? other = _ :=
    Memory.find?_put names.inner other
  have held := found place
  rw [if_pos rfl] at held
  obtain ⟨mem', ran, entries, here⟩ := dumped_of_holds holds written
  have same := Memory.find?_of_entries entries
  have kept' : mem.Keeps mem' :=
    ⟨here.trans kept.here, fun other held => (same other).trans (kept.directories other held)⟩
  exact ⟨mem', ran, kept',
    Memory.readFile_of_names (names.of_keeps kept') ((same place).trans held),
    fun other => (same other).trans (found other)⟩

/-- A grammar file by itself in the root directory. -/
def alone (name : String) (bytes : List UInt8) : Memory :=
  ⟨[([name], .file bytes)], [], [], [], "", ""⟩

end GrammarMachine.Shell
