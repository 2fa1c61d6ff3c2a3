import GrammarMachine.Search
import GrammarMachine.Text.Scalar

/-!
Where characters come from. A source answers, for every position, which character starts there and
how many units wide it is; reading it in order and coming back to an earlier position therefore
give the same characters. Two codes mark the end of the text.
-/

namespace GrammarMachine

/-- Where something starts in the input. Lines and columns count from one. -/
structure Origin where
  pos : Nat
  line : Nat
  col : Nat
deriving DecidableEq, Repr

/-- The code of the end of text, which no character has. -/
def endCode : Int32 := -1

/-- The null character ends a text too. -/
def nullCode : Int32 := 0

def isEndCode (code : Int32) : Bool :=
  code == endCode || code == nullCode

/-- One character as read: its code and its width in source units. -/
structure Reading where
  code : Int32
  width : Nat
deriving DecidableEq, Repr

namespace Reading

def isEnd (r : Reading) : Bool := isEndCode r.code

/-- The end of text, in either of its codes. -/
def ending (null : Bool) : Reading := ⟨if null then nullCode else endCode, 0⟩

@[simp]
theorem isEnd_ending (null : Bool) : (ending null).isEnd = true := by
  cases null <;> rfl

def ofChar (c : Char) : Reading := ⟨Text.code c, c.utf8Size⟩

end Reading

/-- A finite text, addressed by position. -/
structure Source where
  readAt : Nat → Reading
  /-- Position of the first character. -/
  start : Nat
  /-- Position behind the last character. -/
  stop : Nat
  /-- A character is at least one unit wide and ends within the text. -/
  bounded : ∀ p, (readAt p).isEnd = false →
    0 < (readAt p).width ∧ p + (readAt p).width ≤ stop

namespace Source

/-- Readings with the positions at which they start, one behind the other. -/
def layout : Nat → List Reading → List (Nat × Reading)
  | _, [] => []
  | p, r :: rest => (p, r) :: layout (p + r.width) rest

/-- Total width of some readings. -/
def extent : List Reading → Nat
  | [] => 0
  | r :: rest => r.width + extent rest

theorem layout_bounded {p : Nat} {readings : List Reading} {entry : Nat × Reading}
    (mem : entry ∈ layout p readings) :
    entry.2 ∈ readings ∧ entry.1 + entry.2.width ≤ p + extent readings := by
  induction readings generalizing p with
  | nil => cases mem
  | cons r rest ih =>
    have total : extent (r :: rest) = r.width + extent rest := rfl
    rcases List.mem_cons.1 mem with rfl | tail
    · exact ⟨List.mem_cons_self, by simp only [total]; omega⟩
    · obtain ⟨inside, bound⟩ := ih tail
      exact ⟨List.mem_cons_of_mem _ inside, by omega⟩

/-- The reading laid out at position `p`, and `last` where none is. -/
def lookUp (entries : Array (Nat × Reading)) (last : Reading) (p : Nat) : Reading :=
  match Search.lastPassing? (fun (entry : Nat × Reading) => entry.1 ≤ p) entries with
  | some entry => if entry.1 = p then entry.2 else last
  | none => last

theorem lookUp_eq_or_mem (entries : Array (Nat × Reading)) (last : Reading) (p : Nat) :
    lookUp entries last p = last ∨ (p, lookUp entries last p) ∈ entries := by
  unfold lookUp
  split
  · next entry found =>
    split
    · next same =>
      right
      unfold Search.lastPassing? at found
      split at found
      · cases found
      · have mem := Array.mem_of_getElem? found
        rwa [← same]
    · exact .inl rfl
  · exact .inl rfl

/-- The source that lays out `readings` from position `start`. Away from their positions, and behind
them, it reads as the end of text. -/
def ofReadings (start : Nat) (readings : List Reading) (null : Bool)
    (wide : ∀ r ∈ readings, 0 < r.width) : Source :=
  let entries := (layout start readings).toArray
  { readAt := lookUp entries (Reading.ending null)
    start
    stop := start + extent readings
    bounded := by
      intro p inside
      rcases lookUp_eq_or_mem entries (Reading.ending null) p with last | mem
      · rw [last, Reading.isEnd_ending] at inside
        cases inside
      · obtain ⟨inner, bound⟩ := layout_bounded (List.mem_toArray.1 mem)
        exact ⟨wide _ inner, bound⟩ }

/-- A string, in units of its UTF-8 encoding. -/
def ofText (text : String) (null : Bool) : Source :=
  ofReadings 0 (text.toList.map Reading.ofChar) null (by
    intro r mem
    obtain ⟨c, _, rfl⟩ := List.mem_map.1 mem
    exact c.utf8Size_pos)

/-- A list of codes and widths. A width of zero counts as one. -/
def ofCodes (start : Nat) (codes : List (Int32 × Nat)) (null : Bool) : Source :=
  ofReadings start (codes.map fun item => ⟨item.1, max 1 item.2⟩) null (by
    intro r mem
    obtain ⟨item, _, rfl⟩ := List.mem_map.1 mem
    exact Nat.le_max_left 1 item.2)

end Source

/-- A place in a source from which it is read on. -/
structure Reader where
  source : Source
  pos : Nat

namespace Reader

def start (source : Source) : Reader := ⟨source, source.start⟩

/-- The next character; the reader moves on by its width. -/
def read (r : Reader) : Reading × Reader :=
  let reading := r.source.readAt r.pos
  (reading, { r with pos := r.pos + reading.width })

/-- Moves to a position, or to the end of the text if that comes first. -/
def seek (r : Reader) (p : Nat) : Reader :=
  { r with pos := min p r.source.stop }

end Reader

end GrammarMachine
