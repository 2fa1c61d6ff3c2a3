import GrammarMachine.Proofs.Success
import GrammarMachine.Shell.Memory

/-!
Files in memory. `Names mem path place` says that `path` leads to a name at `place`, where a file is
or could be. A file is written and read at the place that its path names, and writing it leaves
alone what every other path names.
-/

namespace GrammarMachine.Memory

variable {mem mem' : Memory} {path : String} {place other : List String} {entry : Entry}
  {bytes : List UInt8}

/-- Putting an entry in place of another changes what is found at that place only. -/
theorem lookup_replace (entries : List (List String × Entry)) (place other : List String)
    (entry : Entry) :
    (entries.map fun e => if e.1 = place then (place, entry) else e).lookup other =
      if other = place then (entries.lookup place).map fun _ => entry
      else entries.lookup other := by
  induction entries with
  | nil => split <;> rfl
  | cons e entries ih =>
    obtain ⟨key, held⟩ := e
    rw [List.map_cons, List.lookup_cons, List.lookup_cons]
    by_cases replaced : key = place
    · subst replaced
      by_cases same : other = key
      · simp [same]
      · have passed : (other == key) = false := beq_eq_false_iff_ne.2 same
        simp [same, passed, ih, List.lookup_cons]
    · by_cases same : other = key
      · subst same
        simp [replaced]
      · have missed : (place == key) = false := beq_eq_false_iff_ne.2 (Ne.symm replaced)
        have passed : (other == key) = false := beq_eq_false_iff_ne.2 same
        simp [replaced, missed, passed, ih, List.lookup_cons]

theorem find?_put (inner : place ≠ []) (other : List String) :
    (mem.put place entry).find? other = if other = place then some entry else mem.find? other := by
  unfold find?
  by_cases root : other = []
  · subst root
    rw [if_pos List.isEmpty_nil, if_neg (Ne.symm inner), if_pos List.isEmpty_nil]
  · have listed : ¬other.isEmpty = true := mt List.isEmpty_iff.1 root
    rw [if_neg listed, if_neg listed, put]
    split
    · next found =>
      rw [lookup_replace]
      obtain ⟨held, found⟩ := Option.isSome_iff_exists.1 found
      rw [found]
      rfl
    · next missing =>
      have missing := Option.not_isSome_iff_eq_none.1 missing
      rw [List.lookup_append]
      by_cases same : other = place
      · rw [same, missing]
        simp
      · have passed : (other == place) = false := beq_eq_false_iff_ne.2 same
        simp [same, passed, List.lookup_cons]

theorem find?_of_entries (same : mem'.entries = mem.entries) (place : List String) :
    mem'.find? place = mem.find? place := by
  rw [find?, find?, same]

/-- `path` leads to a name in a directory, and does not insist on a directory of that name. -/
def Names (mem : Memory) (path : String) (place : List String) : Prop :=
  ∃ directory name, mem.follow path = .ok (.name directory name) ∧
    Path.endsInSlash path = false ∧ name.utf8ByteSize ≤ nameLimit ∧ place = directory ++ [name]

theorem Names.inner (names : mem.Names path place) : place ≠ [] := by
  obtain ⟨directory, name, -, -, -, rfl⟩ := names
  simp

theorem entryIn_of_le {directory : List String} {name : String}
    (short : name.utf8ByteSize ≤ nameLimit) :
    mem.entryIn directory name = .ok (mem.find? (directory ++ [name])) :=
  if_neg (Nat.not_lt.2 short)

theorem readFile_of_names (names : mem.Names path place)
    (held : mem.find? place = some (.file bytes)) : mem.readFile path = .ok bytes := by
  obtain ⟨directory, name, followed, slash, short, rfl⟩ := names
  rw [readFile, followed, ok_bind]
  dsimp only
  rw [entryIn_of_le short, held, ok_bind]
  dsimp only
  rw [slash]
  rfl

/-- A file is written where the path leads, unless there is a directory. -/
theorem writeFile_eq_ok_iff : mem.writeFile path bytes = .ok mem' ↔
    ∃ place, mem.Names path place ∧ mem.find? place ≠ some .directory ∧
      mem' = mem.put place (.file bytes) := by
  constructor
  · intro written
    obtain ⟨_ | ⟨directory, name⟩, followed, written⟩ := bind_eq_ok_iff.1 written
    · cases written
    dsimp only at written
    split at written
    · cases written
    · next slash =>
      obtain ⟨held, entered, written⟩ := bind_eq_ok_iff.1 written
      unfold entryIn at entered
      split at entered
      · cases entered
      · next short =>
        cases entered
        refine ⟨directory ++ [name], ⟨directory, name, followed, by simpa using slash,
          Nat.not_lt.1 short, rfl⟩, fun held => ?_, ?_⟩
        · rw [held] at written
          cases written
        · split at written
          · cases written
          · exact (Except.ok.inj written).symm
          · exact (Except.ok.inj written).symm
  · rintro ⟨place, ⟨directory, name, followed, slash, short, rfl⟩, free, rfl⟩
    rw [writeFile, followed, ok_bind]
    dsimp only
    rw [slash, if_neg Bool.false_ne_true, entryIn_of_le short, ok_bind]
    split
    · next held => exact absurd held free
    · rfl
    · rfl

/-- Every directory of `mem` is one of `mem'`, and both work in the same place. -/
structure Keeps (mem mem' : Memory) : Prop where
  here : mem'.here = mem.here
  directories : ∀ place, mem.find? place = some .directory → mem'.find? place = some .directory

theorem Keeps.enter (keeps : mem.Keeps mem') {start : List String} {part : String}
    (entered : mem.enter start part = .ok place) : mem'.enter start part = .ok place := by
  unfold Memory.enter at entered ⊢
  split
  · next dot => rwa [if_pos dot] at entered
  · next dot =>
    rw [if_neg dot] at entered
    split
    · next above => rwa [if_pos above] at entered
    · next above =>
      rw [if_neg above] at entered
      obtain ⟨held, entryIn, entered⟩ := bind_eq_ok_iff.1 entered
      unfold Memory.entryIn at entryIn ⊢
      split at entryIn
      · cases entryIn
      · next short =>
        have held := Except.ok.inj entryIn
        subst held
        split at entered
        · cases entered
        · cases entered
        · next directory =>
          rw [if_neg short, keeps.directories _ directory]
          exact entered

theorem Keeps.walk (keeps : mem.Keeps mem') {parts start : List String}
    (walked : mem.walk start parts = .ok place) : mem'.walk start parts = .ok place := by
  induction parts generalizing start with
  | nil => exact walked
  | cons part parts ih =>
    obtain ⟨next, entered, walked⟩ := bind_eq_ok_iff.1 walked
    rw [Memory.walk, keeps.enter entered, ok_bind]
    exact ih walked

theorem Keeps.follow (keeps : mem.Keeps mem') {ending : Ending}
    (followed : mem.follow path = .ok ending) : mem'.follow path = .ok ending := by
  unfold Memory.follow at followed ⊢
  rw [keeps.here]
  split at followed
  · cases followed
  · next some =>
    rw [if_neg some]
    split at followed
    · cases followed
    · next short =>
      obtain ⟨place, walked, followed⟩ := bind_eq_ok_iff.1 followed
      rw [if_neg short]
      exact bind_eq_ok_iff.2 ⟨place, keeps.walk walked, followed⟩

/-- A path names the same place where no directory is lost. -/
theorem Names.of_keeps (names : mem.Names path place) (keeps : mem.Keeps mem') :
    mem'.Names path place := by
  obtain ⟨directory, name, followed, rest⟩ := names
  exact ⟨directory, name, keeps.follow followed, rest⟩

/-- A file takes the place of no directory. -/
theorem keeps_put (names : mem.Names path place) (free : mem.find? place ≠ some .directory) :
    mem.Keeps (mem.put place (.file bytes)) where
  here := by
    unfold put
    split <;> rfl
  directories other held := by
    rw [find?_put names.inner, if_neg]
    · exact held
    · rintro rfl
      exact free held

theorem update_of_eq {operation : Memory → Except FileFault Memory}
    (done : operation mem = .ok mem') : update operation mem = (.ok (), mem') := by
  rw [update, done]

end GrammarMachine.Memory
