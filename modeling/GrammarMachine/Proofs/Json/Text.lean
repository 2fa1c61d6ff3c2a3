import Mathlib.Data.List.DropRight
import GrammarMachine.Proofs.Json.Numbers

/-!
What is written with one item to a line is read back. A value is read up to what closes it, whatever
the level at which it stands; the lines of an array and of an object are read one after another, by
induction on the items.
-/

namespace GrammarMachine.Json

/-- Values with a text of their own: numbers are integers, and all keys and strings are texts. -/
inductive Readable : Json → Prop where
  | null : Readable null
  | bool (value : Bool) : Readable (bool value)
  | int (n : Int) : Readable (int n)
  | text (s : String) : Readable (text s)
  | array {items : List Json} (each : ∀ item ∈ items, Readable item) : Readable (array items)
  | record {members : List (String × Json)} (each : ∀ m ∈ members, Readable m.2) :
    Readable (record members)

section Blanks

variable {blanks : List UInt8}

theorem skipBlanks_append (blank : ∀ b ∈ blanks, isBlank b = true) (bytes : List UInt8) :
    skipBlanks (blanks ++ bytes) = skipBlanks bytes :=
  List.dropWhile_append_of_pos blank

theorem skipBlanks_idem (bytes : List UInt8) : skipBlanks (skipBlanks bytes) = skipBlanks bytes :=
  List.dropWhile_idempotent isBlank bytes

theorem skipBlanks_cons {b : UInt8} (mark : isBlank b = false) (bytes : List UInt8) :
    skipBlanks (b :: bytes) = b :: bytes :=
  List.dropWhile_cons_of_neg (by simp [mark])

theorem skipBlanks_space (bytes : List UInt8) : skipBlanks (0x20 :: bytes) = skipBlanks bytes :=
  List.dropWhile_cons_of_pos rfl

/-- The bytes at the start of a line. -/
def margin (level : Nat) : List UInt8 := 0x0a :: List.replicate (2 * level) 0x20

theorem encoded_indent (level : Nat) : encoded (indent level).toList = margin level := by
  have blanks (n : Nat) (s : String) :
      encoded (s.pushn ' ' n).toList = encoded s.toList ++ List.replicate n 0x20 := by
    rw [String.pushn_eq_repeat_push]
    induction n with
    | zero => exact (List.append_nil _).symm
    | succ n ih =>
      rw [Nat.repeat, String.toList_push, encoded_append, ih, List.append_assoc,
        List.replicate_succ']
      rfl
  rw [indent, blanks]
  rfl

theorem isBlank_of_mem_margin {level : Nat} {b : UInt8} (mem : b ∈ margin level) :
    isBlank b = true := by
  rcases List.mem_cons.1 mem with rfl | mem
  · rfl
  · rw [List.eq_of_mem_replicate mem]
    rfl

theorem skipBlanks_margin (level : Nat) (bytes : List UInt8) :
    skipBlanks (margin level ++ bytes) = skipBlanks bytes :=
  skipBlanks_append (fun _ => isBlank_of_mem_margin) bytes

theorem closes_margin (level : Nat) (bytes : List UInt8) : Closes (margin level ++ bytes) :=
  fun _ head => .inr (Option.some.inj head).symm

theorem closes_comma (bytes : List UInt8) : Closes (0x2c :: bytes) :=
  fun _ head => .inl (Option.some.inj head).symm

end Blanks

section Parts

variable {fuel : Nat} {bytes more rest : List UInt8} {v : Json} {items : List Json}
  {members : List (Option String × Json)}

attribute [local simp] value? items? members?

/-- Blanks in front of a value do not matter. -/
theorem value?_congr (same : skipBlanks bytes = skipBlanks more) :
    value? fuel bytes = value? fuel more := by
  cases fuel with
  | zero => simp
  | succ fuel => rw [value?, value?, same]

theorem items?_last (first : value? fuel bytes = some (v, more))
    (close : skipBlanks more = 0x5d :: rest) : items? (fuel + 1) bytes = some ([v], rest) := by
  rw [items?, first]
  simp only [Option.bind_eq_bind, Option.bind_some, close]
  rfl

theorem items?_next (first : value? fuel bytes = some (v, 0x2c :: more))
    (others : items? fuel more = some (items, rest)) :
    items? (fuel + 1) bytes = some (v :: items, rest) := by
  rw [items?, first]
  simp only [Option.bind_eq_bind, Option.bind_some, skipBlanks_cons (b := 0x2c) rfl, others]
  rfl

theorem items?_congr (same : skipBlanks bytes = skipBlanks more) :
    items? fuel bytes = items? fuel more := by
  cases fuel with
  | zero => simp
  | succ fuel => rw [items?, items?, value?_congr same]

theorem members?_congr (same : skipBlanks bytes = skipBlanks more) :
    members? fuel bytes = members? fuel more := by
  cases fuel with
  | zero => simp
  | succ fuel => rw [members?, members?, same]

/-- No value starts with a closing bracket. -/
theorem value?_close (close : skipBlanks bytes = 0x5d :: rest) : value? fuel bytes = none := by
  cases fuel with
  | zero => simp
  | succ fuel =>
    rw [value?, close]
    rfl

theorem items?_close (close : skipBlanks bytes = 0x5d :: rest) : items? fuel bytes = none := by
  cases fuel with
  | zero => simp
  | succ fuel => simp [value?_close close]

theorem members?_close (close : skipBlanks bytes = 0x7d :: rest) :
    members? fuel bytes = none := by
  cases fuel with
  | zero => simp
  | succ fuel => simp [close]

theorem value?_noItems : value? (fuel + 1) (0x5b :: 0x5d :: rest) = some (array [], rest) := by
  rw [value?, skipBlanks_cons rfl]
  rfl

theorem value?_noMembers : value? (fuel + 1) (0x7b :: 0x7d :: rest) = some (object [], rest) := by
  rw [value?, skipBlanks_cons rfl]
  rfl

/-- Brackets around items are not those of an empty array. -/
theorem value?_items (read : items? fuel bytes = some (items, rest)) :
    value? (fuel + 1) (0x5b :: bytes) = some (array items, rest) := by
  rw [value?, skipBlanks_cons rfl]
  dsimp only
  rw [if_neg (by decide), if_pos (by decide)]
  split
  · next close => cases (items?_close close).symm.trans read
  · rw [items?_congr (skipBlanks_idem bytes), read]
    rfl

/-- Braces around members are not those of an empty object. -/
theorem value?_members (read : members? fuel bytes = some (members, rest)) :
    value? (fuel + 1) (0x7b :: bytes) = some (object members, rest) := by
  rw [value?, skipBlanks_cons rfl]
  dsimp only
  rw [if_pos (by decide)]
  split
  · next close => cases (members?_close close).symm.trans read
  · rw [members?_congr (skipBlanks_idem bytes), read]
    rfl

theorem value?_null : value? (fuel + 1) (encoded "null".toList ++ rest) = some (null, rest) := by
  rw [show encoded "null".toList = [0x6e, 0x75, 0x6c, 0x6c] by decide, List.cons_append, value?,
    skipBlanks_cons rfl]
  rfl

theorem value?_true : value? (fuel + 1) (encoded "true".toList ++ rest) = some (bool true, rest) := by
  rw [show encoded "true".toList = [0x74, 0x72, 0x75, 0x65] by decide, List.cons_append, value?,
    skipBlanks_cons rfl]
  rfl

theorem value?_false :
    value? (fuel + 1) (encoded "false".toList ++ rest) = some (bool false, rest) := by
  rw [show encoded "false".toList = [0x66, 0x61, 0x6c, 0x73, 0x65] by decide, List.cons_append,
    value?, skipBlanks_cons rfl]
  rfl

theorem value?_text (s : String) (rest : List UInt8) :
    value? (fuel + 1) (encoded (quote s).toList ++ rest) = some (text s, rest) := by
  obtain ⟨body, quoted, read⟩ := stringLiteral_quote s rest
  rw [quoted, List.cons_append, value?, skipBlanks_cons rfl]
  change (stringLiteral (body ++ rest)).bind (fun r => some (string r.1, r.2)) = _
  rw [read]
  rfl

theorem value?_number {literal : String} (read : number? bytes = some (literal, rest)) :
    value? (fuel + 1) bytes = some (number literal, rest) := by
  obtain _ | ⟨b, bytes⟩ := bytes
  · cases read
  -- no mark of another kind of value starts a number
  have other (c : UInt8) (no : number? (c :: bytes) = none) : (b == c) = false := by
    refine beq_eq_false_iff_ne.2 ?_
    rintro rfl
    cases no.symm.trans read
  have mark : isBlank b = false := by
    simp only [isBlank, other (ascii ' ') rfl, other (ascii '\n') rfl, other (ascii '\t') rfl,
      other (ascii '\r') rfl, Bool.or_self]
  rw [value?, skipBlanks_cons mark]
  simp only [other (ascii '\x7b') rfl, other (ascii '[') rfl, other (ascii '"') rfl,
    other (ascii 't') rfl, other (ascii 'f') rfl, other (ascii 'n') rfl, Bool.false_eq_true,
    if_false, read]
  rfl

/-- A member in front of the brace that closes the object. -/
theorem members?_last {key : String} (value : value? fuel bytes = some (v, more))
    (close : skipBlanks more = 0x7d :: rest) :
    members? (fuel + 1) (encoded (quote key).toList ++ 0x3a :: bytes) =
      some ([(some key, v)], rest) := by
  obtain ⟨body, quoted, read⟩ := stringLiteral_quote key (0x3a :: bytes)
  rw [quoted, List.cons_append, members?, skipBlanks_cons rfl]
  simp only [Option.bind_eq_bind, read, Option.bind_some, skipBlanks_cons (b := 0x3a) rfl, value,
    close]
  rfl

/-- A member in front of another. -/
theorem members?_next {key : String} (value : value? fuel bytes = some (v, 0x2c :: more))
    (others : members? fuel more = some (members, rest)) :
    members? (fuel + 1) (encoded (quote key).toList ++ 0x3a :: bytes) =
      some ((some key, v) :: members, rest) := by
  obtain ⟨body, quoted, read⟩ := stringLiteral_quote key (0x3a :: bytes)
  rw [quoted, List.cons_append, members?, skipBlanks_cons rfl]
  simp only [Option.bind_eq_bind, read, Option.bind_some, skipBlanks_cons (b := 0x3a) rfl, value,
    skipBlanks_cons (b := 0x2c) rfl, others]
  rfl

end Parts

section Lines

variable {α : Type} {read : Nat → List UInt8 → Option (List α × List UInt8)}
  {opening close : UInt8} {make : List α → Json} {write : α → String} {entries : List α}
  {fuel level : Nat} {rest : List UInt8}

/-- The bytes of some lines with commas between them. -/
def lines (level : Nat) (texts : List String) : List UInt8 :=
  encoded (("," ++ indent level).intercalate texts).toList

theorem lines_singleton (text : String) : lines level [text] = encoded text.toList := by
  rw [lines, String.intercalate_singleton]

theorem lines_cons {text : String} {texts : List String} (others : texts ≠ []) :
    lines level (text :: texts) =
      encoded text.toList ++ 0x2c :: (margin level ++ lines level texts) := by
  rw [lines, String.intercalate_cons_of_ne_nil others, String.append_assoc, String.append_assoc]
  simp only [String.toList_append, encoded_append, encoded_indent]
  rfl

/-- `line` is read for the entry `a`, in front of what closes the entries or of another one. -/
structure ReadsLine (read : Nat → List UInt8 → Option (List α × List UInt8)) (close : UInt8)
    (line : List UInt8) (a : α) : Prop where
  last : ∀ {fuel : Nat} {more rest : List UInt8}, line.length < fuel → Closes more →
    skipBlanks more = close :: rest → read (fuel + 1) (line ++ more) = some ([a], rest)
  next : ∀ {fuel : Nat} {more rest : List UInt8} {entries : List α}, line.length < fuel →
    read fuel more = some (entries, rest) →
      read (fuel + 1) (line ++ 0x2c :: more) = some (a :: entries, rest)

/-- Between `opening` and `close`, what is read as entries makes a value. -/
structure Brackets (read : Nat → List UInt8 → Option (List α × List UInt8))
    (opening close : UInt8) (make : List α → Json) : Prop where
  mark : isBlank close = false
  skip : ∀ {fuel : Nat} {bytes more : List UInt8}, skipBlanks bytes = skipBlanks more →
    read fuel bytes = read fuel more
  empty : ∀ {fuel : Nat} {rest : List UInt8},
    value? (fuel + 1) (opening :: close :: rest) = some (make [], rest)
  value : ∀ {fuel : Nat} {bytes rest : List UInt8} {entries : List α},
    read fuel bytes = some (entries, rest) →
      value? (fuel + 1) (opening :: bytes) = some (make entries, rest)

theorem brackets_items : Brackets items? 0x5b 0x5d array where
  mark := rfl
  skip := items?_congr
  empty := value?_noItems
  value := value?_items

theorem brackets_members : Brackets members? 0x7b 0x7d object where
  mark := rfl
  skip := members?_congr
  empty := value?_noMembers
  value := value?_members

/-- Lines that are read one by one are read together. -/
theorem Brackets.lines (brackets : Brackets read opening close make)
    (each : ∀ a ∈ entries, ReadsLine read close (encoded (write a).toList) a)
    (some : entries ≠ []) (fuel last : Nat)
    (enough : (lines level (entries.map write)).length + 1 < fuel) :
    read fuel (lines level (entries.map write) ++ (margin last ++ close :: rest)) =
      .some (entries, rest) := by
  induction entries generalizing fuel with
  | nil => exact absurd rfl some
  | cons a entries ih =>
    obtain ⟨first, others⟩ := List.forall_mem_cons.1 each
    obtain _ | fuel := fuel
    · omega
    by_cases alone : entries = []
    · subst alone
      rw [List.map_singleton, lines_singleton] at enough ⊢
      refine first.last (by omega) (closes_margin _ _) ?_
      rw [skipBlanks_margin, skipBlanks_cons brackets.mark]
    · rw [List.map_cons, lines_cons (mt List.map_eq_nil_iff.1 alone)] at enough ⊢
      simp only [List.length_append, List.length_cons] at enough
      rw [List.append_assoc, List.cons_append]
      refine first.next (by omega) ?_
      rw [List.append_assoc, brackets.skip (skipBlanks_margin _ _)]
      exact ih others alone fuel (by omega)

section Blocks

variable {front back : String}

/-- Brackets around lines: each bracket stands at the end or at the start of a line. -/
theorem encoded_block (opened : encoded front.toList = [opening])
    (closed : encoded back.toList = [close]) {texts : List String} (some : texts ≠ []) :
    encoded (block level front back texts).toList =
      opening :: (margin (level + 1) ++
        (lines (level + 1) texts ++ (margin level ++ [close]))) := by
  rw [block, if_neg (by simpa using some)]
  simp only [String.toList_append, encoded_append, encoded_indent, List.append_assoc, opened,
    closed]
  rfl

theorem encoded_block_nil (opened : encoded front.toList = [opening])
    (closed : encoded back.toList = [close]) :
    encoded (block level front back []).toList = [opening, close] := by
  rw [block, if_pos List.isEmpty_nil, String.toList_append, encoded_append, opened, closed]
  rfl

theorem Brackets.block (brackets : Brackets read opening close make)
    (opened : encoded front.toList = [opening]) (closed : encoded back.toList = [close])
    (each : ∀ a ∈ entries, ReadsLine read close (encoded (write a).toList) a)
    (enough : (encoded (block level front back (entries.map write)).toList).length < fuel) :
    value? fuel (encoded (block level front back (entries.map write)).toList ++ rest) =
      some (make entries, rest) := by
  obtain _ | fuel := fuel
  · omega
  by_cases empty : entries = []
  · rw [empty, List.map_nil, encoded_block_nil opened closed]
    exact brackets.empty
  · rw [encoded_block opened closed (mt List.map_eq_nil_iff.1 empty)] at enough ⊢
    simp only [List.length_cons, List.length_append] at enough
    simp only [List.cons_append, List.append_assoc]
    refine brackets.value ((brackets.skip (skipBlanks_margin _ _)).trans ?_)
    exact brackets.lines each empty fuel level (by omega)

end Blocks

end Lines

section Texts

theorem prettyItems_eq_map (level : Nat) (items : List Json) :
    prettyItems level items = items.map (prettyAt level) := by
  induction items with
  | nil => rw [prettyItems]; rfl
  | cons item items ih => rw [prettyItems, ih]; rfl

/-- A member in a line. -/
def prettyMember (level : Nat) (m : Option String × Json) : String :=
  quoteText m.1 ++ ": " ++ prettyAt level m.2

theorem prettyMembers_eq_map (level : Nat) (members : List (Option String × Json)) :
    prettyMembers level members = members.map (prettyMember level) := by
  induction members with
  | nil => rw [prettyMembers]; rfl
  | cons m members ih => rw [prettyMembers, ih]; rfl

variable {level : Nat} {v : Json}

/-- The text of `v` at some level is read up to what closes it. -/
def ReadsAt (level : Nat) (v : Json) : Prop :=
  ∀ (fuel : Nat) (rest : List UInt8), Closes rest →
    (encoded (prettyAt level v).toList).length < fuel →
      value? fuel (encoded (prettyAt level v).toList ++ rest) = some (v, rest)

theorem ReadsAt.item (value : ReadsAt level v) :
    ReadsLine items? 0x5d (encoded (prettyAt level v).toList) v where
  last enough closes close := items?_last (value _ _ closes enough) close
  next enough others := items?_next (value _ _ (closes_comma _) enough) others

theorem ReadsAt.member {key : String} (value : ReadsAt level v) :
    ReadsLine members? 0x7d (encoded (prettyMember level (some key, v)).toList) (some key, v) := by
  have spelled : encoded (prettyMember level (some key, v)).toList =
      encoded (quote key).toList ++ (0x3a :: [0x20] ++ encoded (prettyAt level v).toList) := by
    simp only [prettyMember, String.toList_append, encoded_append, List.append_assoc]
    rfl
  have behind {fuel : Nat} {more : List UInt8} (closes : Closes more)
      (enough : (encoded (prettyMember level (some key, v)).toList).length < fuel) :
      value? fuel (0x20 :: (encoded (prettyAt level v).toList ++ more)) = some (v, more) := by
    have shorter : (encoded (prettyAt level v).toList).length < fuel := by
      rw [spelled] at enough
      simp only [List.length_append, List.length_cons] at enough
      omega
    rw [value?_congr (skipBlanks_space _), value fuel more closes shorter]
  constructor
  · intro fuel more rest enough closes close
    rw [spelled, List.append_assoc]
    exact members?_last (behind closes enough) close
  · intro fuel more rest entries enough others
    rw [spelled, List.append_assoc]
    exact members?_next (behind (closes_comma more) enough) others

/-- There is fuel for one more step. -/
theorem readsAt_of_succ (reads : ∀ (fuel : Nat) (rest : List UInt8), Closes rest →
    value? (fuel + 1) (encoded (prettyAt level v).toList ++ rest) = some (v, rest)) :
    ReadsAt level v := by
  rintro (_ | fuel) rest closes enough
  · omega
  · exact reads fuel rest closes

/-- Every readable value is read from its own text, at every level. -/
theorem Readable.readsAt (readable : Readable v) (level : Nat) : ReadsAt level v := by
  induction readable generalizing level with
  | null =>
    refine readsAt_of_succ fun fuel rest _ => ?_
    rw [prettyAt]
    exact value?_null
  | bool value =>
    refine readsAt_of_succ fun fuel rest _ => ?_
    rw [prettyAt]
    cases value with
    | true => exact value?_true
    | false => exact value?_false
  | int n =>
    refine readsAt_of_succ fun fuel rest closes => ?_
    rw [Json.int, prettyAt]
    exact value?_number (number?_toString n closes)
  | text s =>
    refine readsAt_of_succ fun fuel rest _ => ?_
    rw [Json.text, prettyAt]
    exact value?_text s rest
  | array _ ih =>
    intro fuel rest _ enough
    rw [prettyAt, prettyItems_eq_map] at enough ⊢
    exact brackets_items.block (by decide) (by decide)
      (fun item mem => (ih item mem (level + 1)).item) enough
  | record _ ih =>
    intro fuel rest _ enough
    rw [Json.record, prettyAt, prettyMembers_eq_map] at enough ⊢
    refine brackets_members.block (by decide) (by decide) (fun m mem => ?_) enough
    obtain ⟨m, inside, rfl⟩ := List.mem_map.1 mem
    exact (ih m inside (level + 1)).member

/-- What is written with one item to a line is read back. -/
theorem parse?_pretty (readable : Readable v) : parse? v.pretty.toUTF8.data.toList = some v := by
  have read := readable.readsAt 0 (2 * (encoded (prettyAt 0 v).toList).length + 2) []
    (fun _ => nofun) (by omega)
  rw [List.append_nil] at read
  rw [toUTF8_eq_encoded, pretty, parse?, read]
  rfl

end Texts

end GrammarMachine.Json
