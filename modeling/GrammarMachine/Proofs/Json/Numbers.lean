import GrammarMachine.Grammar.Json
import GrammarMachine.Proofs.Json.Strings
import GrammarMachine.Proofs.Text.Decimal

/-!
Numbers are read as they were written, and 32-bit words are what their literals spell.
-/

namespace GrammarMachine.Json

section Literals

variable {rest : List UInt8}

/-- What stands behind a value in a text: nothing, a comma or the end of a line. -/
def Closes (rest : List UInt8) : Prop := ∀ b ∈ rest.head?, b = 0x2c ∨ b = 0x0a

theorem small_of_isDigit {c : Char} (digit : c.isDigit = true) : c.toNat < 0x80 := by
  simp only [Char.isDigit, Bool.and_eq_true, decide_eq_true_eq] at digit
  exact Nat.lt_of_le_of_lt (UInt32.le_iff_toNat_le.1 digit.2) (by decide)

theorem isDigit_ascii {c : Char} (digit : c.isDigit = true) : isDigit (ascii c) = true := by
  have small := small_of_isDigit digit
  simp only [Char.isDigit, Bool.and_eq_true, decide_eq_true_eq] at digit
  simp only [isDigit, Bool.and_eq_true, decide_eq_true_eq, UInt8.le_iff_toNat_le,
    toNat_ascii small]
  exact ⟨UInt32.le_iff_toNat_le.1 digit.1, UInt32.le_iff_toNat_le.1 digit.2⟩

theorem literal_ascii {cs : List Char} (small : ∀ c ∈ cs, c.toNat < 0x80) :
    literal (cs.map ascii) = String.ofList cs := by
  rw [literal, List.map_map]
  refine congrArg String.ofList ((List.map_congr_left fun c mem => ?_).trans (List.map_id cs))
  change Char.ofNat (ascii c).toNat = c
  rw [toNat_ascii (small c mem), Char.ofNat_toNat]

/-- Digits end where the number does. -/
theorem digits?_append {digits : List UInt8} (some : digits ≠ [])
    (each : ∀ b ∈ digits, isDigit b = true) (closes : Closes rest) :
    digits? (digits ++ rest) = .some (digits, rest) := by
  have stop : rest.takeWhile isDigit = [] ∧ rest.dropWhile isDigit = rest := by
    cases rest with
    | nil => exact ⟨rfl, rfl⟩
    | cons b rest =>
      have other : isDigit b = false := by
        rcases closes b rfl with rfl | rfl <;> decide
      exact ⟨List.takeWhile_cons_of_neg (by simp [other]),
        List.dropWhile_cons_of_neg (by simp [other])⟩
  rw [digits?, List.takeWhile_append_of_pos each, List.dropWhile_append_of_pos each, stop.1,
    stop.2, List.append_nil, if_neg (by simpa using some)]

/-- Neither a fraction nor an exponent follows. -/
theorem fraction?_of_closes (closes : Closes rest) : fraction? rest = some ([], rest) := by
  cases rest with
  | nil => rfl
  | cons b rest => rcases closes b rfl with rfl | rfl <;> rfl

theorem exponent?_of_closes (closes : Closes rest) : exponent? rest = some ([], rest) := by
  cases rest with
  | nil => rfl
  | cons b rest => rcases closes b rfl with rfl | rfl <;> rfl

/-- A zero stands in front only where it stands alone. -/
theorem whole?_digits (n : Nat) (closes : Closes rest) :
    whole? ((Nat.toDigits 10 n).map ascii ++ rest) =
      some ((Nat.toDigits 10 n).map ascii, rest) := by
  have digits : digits? ((Nat.toDigits 10 n).map ascii ++ rest) =
      some ((Nat.toDigits 10 n).map ascii, rest) := by
    refine digits?_append (by simp [Nat.toDigits_ne_nil]) ?_ closes
    simpa using fun c mem => isDigit_ascii (Text.isDigit_of_mem_digits mem)
  rw [whole?, digits]
  change (if _ then none else some _) = some _
  refine if_neg fun leading => ?_
  rw [Bool.and_eq_true, beq_iff_eq, decide_eq_true_eq, List.head?_map,
    Option.map_eq_some_iff] at leading
  obtain ⟨⟨c, head, same⟩, more⟩ := leading
  have digit := Text.isDigit_of_mem_digits (List.mem_of_mem_head? head)
  rw [ascii_inj (small_of_isDigit digit) (by decide) same,
    Text.head?_toDigits_eq_zero_iff] at head
  subst head
  exact absurd more (by decide)

theorem unsigned?_digits (n : Nat) (closes : Closes rest) :
    unsigned? ((Nat.toDigits 10 n).map ascii ++ rest) =
      some ((Nat.toDigits 10 n).map ascii, rest) := by
  rw [unsigned?, whole?_digits n closes]
  simp only [Option.bind_eq_bind, Option.bind_some, fraction?_of_closes closes,
    exponent?_of_closes closes, List.append_nil]
  rfl

theorem small_of_mem_toString {n : Int} {c : Char} (mem : c ∈ (toString n).toList) :
    c.toNat < 0x80 := by
  rw [Text.toList_toString, List.mem_append] at mem
  rcases mem with sign | digit
  · split at sign
    · rw [List.mem_singleton.1 sign]
      decide
    · cases sign
  · exact small_of_isDigit (Text.isDigit_of_mem_digits digit)

/-- A number is read up to where it ends. -/
theorem number?_toString (n : Int) (closes : Closes rest) :
    number? (encoded (toString n).toList ++ rest) = some (toString n, rest) := by
  have read : number? ((toString n).toList.map ascii ++ rest) =
      some (literal ((toString n).toList.map ascii), rest) := by
    have digits := unsigned?_digits n.natAbs closes
    rw [Text.toList_toString]
    split
    · rw [List.singleton_append, List.map_cons, List.cons_append, number?,
        if_pos (beq_self_eq_true _), digits]
      rfl
    · obtain ⟨c, cs, same⟩ :=
        List.exists_cons_of_ne_nil (Nat.toDigits_ne_nil (n := n.natAbs) (b := 10))
      have digit : c.isDigit = true :=
        Text.isDigit_of_mem_digits (same ▸ List.mem_cons_self)
      have unsigned : ¬(ascii c == ascii '-') = true := by
        rw [beq_iff_eq]
        intro minus
        rw [ascii_inj (small_of_isDigit digit) (by decide) minus] at digit
        cases digit
      rw [same, List.map_cons, List.cons_append] at digits
      rw [List.nil_append, same, List.map_cons, List.cons_append, number?, if_neg unsigned, digits]
      rfl
  rw [encoded_of_ascii fun _ => small_of_mem_toString, read,
    literal_ascii fun _ => small_of_mem_toString, String.ofList_toList]

end Literals

section Words

/-- An integer is what its literal spells; only the literal of zero could be minus zero. -/
@[simp]
theorem int?_int (n : Int) : int? (int n) = some n := by
  unfold int int?
  dsimp only
  rw [Text.integer?_toString]
  refine if_neg fun minus => ?_
  rw [Bool.and_eq_true, decide_eq_true_eq] at minus
  obtain ⟨rfl, sign⟩ := minus
  exact absurd sign (by decide)

@[simp]
theorem uint32?_uint32 (w : UInt32) : uint32? (uint32 w) = some w := by
  have bound := w.toNat_lt
  change ((int? (int w.toNat)).bind fun n =>
    if 0 ≤ n && n < 0x100000000 then some n.toNat.toUInt32 else none) = some w
  rw [int?_int, Option.bind_some, if_pos (by simp; omega), Int.toNat_natCast]
  exact congrArg some (UInt32.ofNat_toNat)

@[simp]
theorem int32?_int32 (w : Int32) : int32? (int32 w) = some w := by
  have low := w.le_toInt
  have high := w.toInt_lt
  change ((int? (int w.toInt)).bind fun n =>
    if -0x80000000 ≤ n && n < 0x80000000 then some (Int32.ofInt n) else none) = some w
  rw [int?_int, Option.bind_some, if_pos (by simp; omega), Int32.ofInt_toInt]

end Words

end GrammarMachine.Json
