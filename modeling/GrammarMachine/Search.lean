/-!
Halving search in arrays. `partitionPoint` counts the entries that satisfy a test, provided they
all stand in front; on other arrays the answer is still determined, by the halving itself.
-/

namespace GrammarMachine.Search

/-- Halves the stretch of `size` places from `base`, keeping the upper half when its first place
passes the test. -/
def narrow (passes : Nat → Bool) : Nat → Nat → Nat → Nat
  | 0, base, _ => base
  | fuel + 1, base, size =>
    if size ≤ 1 then base
    else
      let half := size / 2
      narrow passes fuel (if passes (base + half) then base + half else base) (size - half)

variable {α : Type}

/-- Does entry `i` exist and pass the test? -/
def passesAt (test : α → Bool) (xs : Array α) (i : Nat) : Bool :=
  match xs[i]? with
  | some x => test x
  | none => false

/-- The place on which the search settles. -/
def landing (test : α → Bool) (xs : Array α) : Nat :=
  narrow (passesAt test xs) xs.size 0 xs.size

/-- Number of leading entries that pass the test. -/
def partitionPoint (test : α → Bool) (xs : Array α) : Nat :=
  let base := landing test xs
  if passesAt test xs base then base + 1 else base

/-- The entry in front of the partition point. -/
def lastPassing? (test : α → Bool) (xs : Array α) : Option α :=
  match partitionPoint test xs with
  | 0 => none
  | i + 1 => xs[i]?

/-- The entry found for `key` among entries in ascending order of `keyOf`. -/
def find? (keyOf : α → UInt32) (key : UInt32) (xs : Array α) : Option α :=
  match xs[landing (fun x => keyOf x ≤ key) xs]? with
  | some x => if keyOf x = key then some x else none
  | none => none

end GrammarMachine.Search
