import GrammarMachine.Grammar.Lookup
import GrammarMachine.Lexer.Cursor

/-!
Running a lexical automaton over the characters ahead. A set of states advances one character at a
time and is closed under empty transitions before each step. A guarded transition is taken if a run
of its own, one level deeper, finds the continuation ahead.
-/

namespace GrammarMachine

/-- A computation that may look ahead. -/
abbrev Scan := StateT Cursor (Except Fault)

namespace Scan

/-- The code of the character `i` places ahead. -/
def peek (i : Nat) : Scan Int32 := fun c => do
  let (reading, c) ← c.peek i
  return (reading.code, c)

end Scan

/-- What a scan found: a recognition and the number of characters up to it. -/
structure Match where
  recognized : Recognition
  length : Nat
deriving DecidableEq, Repr

/-- States in no particular order, each once. -/
abbrev StateSet := List UInt32

namespace Automaton

/-- Adds a state. -/
def insert (a : Automaton) (id : UInt32) (set : StateSet) : Except Fault StateSet :=
  if id.toNat < a.states.size then .ok (if set.contains id then set else id :: set)
  else .error (.lexState id)

/-- Adds the targets of those empty transitions that may be taken; the new ones have to be closed
too, and join the work in front. -/
def addTargets (a : Automaton) (guard : UInt32 → Scan Bool) :
    List Epsilon → List UInt32 → StateSet → Scan (List UInt32 × StateSet)
  | [], work, set => pure (work, set)
  | e :: rest, work, set => do
    let taken ← match e.continuation with
      | none => pure true
      | some root => guard root
    if taken && !set.contains e.target then
      a.addTargets guard rest (e.target :: work) (← a.insert e.target set)
    else a.addTargets guard rest work set

/-- Closes a set under empty transitions; those of the states in `work`, at most `n` in all, are
still to be followed. -/
def closeFrom (a : Automaton) (guard : UInt32 → Scan Bool) :
    Nat → List UInt32 → StateSet → Scan StateSet
  | _, [], set => pure set
  | 0, _ :: _, _ => throw .exhausted
  | n + 1, id :: work, set => do
    let (work, set) ← a.addTargets guard (← a.state id).epsilons work set
    a.closeFrom guard n work set

/-- Closes a set under empty transitions. -/
def close (a : Automaton) (guard : UInt32 → Scan Bool) (set : StateSet) : Scan StateSet :=
  a.closeFrom guard a.states.size set set

/-- The states reached from `set` on one code. -/
def advance (a : Automaton) (set : StateSet) (code : Int32) : Except Fault StateSet :=
  set.foldlM (fun next id => do
    match (← a.state id).step? code with
    | some target => a.insert target next
    | none => pure next) []

/-- What the states of a set recognize. -/
def recognitions (a : Automaton) (set : StateSet) : Except Fault (List Recognition) :=
  set.mapM fun id => return (← a.state id).recognized

/-- Does some state of the set end a continuation? -/
def accepts (a : Automaton) (set : StateSet) : Except Fault Bool :=
  return (← a.recognitions set).contains .followAccept

/-- The recognition with the lowest priority value. -/
def foremost : List Recognition → Option Recognition
  | [] => none
  | r :: rest =>
    match r.priority?, foremost rest with
    | none, other => other
    | some _, none => some r
    | some p, some other =>
      match other.priority? with
      | some q => if p ≤ q then some r else some other
      | none => some r

/-- The recognition that a set of states ends in. -/
def best (a : Automaton) (set : StateSet) : Except Fault (Option Recognition) :=
  return foremost (← a.recognitions set)

/-- Runs a continuation from place `i` on, for at most `n` characters. -/
def followFrom (a : Automaton) (guard : Nat → UInt32 → Scan Bool) :
    Nat → Nat → StateSet → Scan Bool
  | 0, _, _ => throw .exhausted
  | n + 1, i, set => do
    let set ← a.close (guard i) set
    if ← a.accepts set then return true
    if set.isEmpty then return false
    let code ← Scan.peek i
    let next ← a.advance set code
    if isEndCode code then
      let next ← a.close (guard (i + 1)) next
      a.accepts next
    else a.followFrom guard n (i + 1) next

/-- Does the continuation rooted at `root` hold at place `i`? With no level left it does not. -/
def follows (a : Automaton) : Nat → Nat → UInt32 → Scan Bool
  | 0, _, _ => pure false
  | level + 1, i, root => do
    let set ← a.insert root []
    a.followFrom (a.follows level) ((← get).remaining + 2) i set

/-- Runs the automaton from place `i` on, for at most `n` characters; `last` is the match so far. -/
def longestFrom (a : Automaton) : Nat → Nat → Option Match → StateSet → Scan (Option Match)
  | 0, _, _, _ => throw .exhausted
  | n + 1, i, last, set => do
    let set ← a.close (a.follows a.maxDepth.toNat i) set
    let last := match ← a.best set with
      | some recognized => some ⟨recognized, i⟩
      | none => last
    if set.isEmpty then return last
    let code ← Scan.peek i
    let next ← a.advance set code
    if isEndCode code then
      let next ← a.close (a.follows a.maxDepth.toNat (i + 1)) next
      return match ← a.best next with
        | some recognized => some ⟨recognized, i + 1⟩
        | none => last
    else a.longestFrom n (i + 1) last next

/-- The longest match from state `root` at the cursor, and of the recognitions there the one with
the highest priority. The end of text counts as a character. -/
def longestMatch (a : Automaton) (root : UInt32) : Scan (Option Match) := do
  let set ← a.insert root []
  a.longestFrom ((← get).remaining + 2) 0 none set

end Automaton

end GrammarMachine
