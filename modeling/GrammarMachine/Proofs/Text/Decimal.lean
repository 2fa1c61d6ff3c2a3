import Mathlib.Data.Nat.Digits.Defs
import Mathlib.Tactic.Ring
import GrammarMachine.Text.Decimal

/-!
What decimal numerals are worth.
-/

namespace GrammarMachine.Text

variable {cs : List Char}

theorem digitsValue_cons (acc : Nat) (c : Char) (cs : List Char) :
    digitsValue acc (c :: cs) = digitsValue (10 * acc + (c.toNat - '0'.toNat)) cs := by
  with_unfolding_all rfl

/-- Digits count from the right. -/
theorem digitsValue_eq (acc : Nat) (cs : List Char) :
    digitsValue acc cs =
      acc * 10 ^ cs.length + Nat.ofDigits 10 (cs.reverse.map fun c => c.toNat - '0'.toNat) := by
  induction cs generalizing acc with
  | nil => simp [show digitsValue acc [] = acc from rfl]
  | cons c cs ih =>
    rw [digitsValue_cons, ih, List.reverse_cons, List.map_append, Nat.ofDigits_append]
    simp only [List.map_cons, List.map_nil, Nat.ofDigits_singleton, List.length_map,
      List.length_reverse, List.length_cons]
    ring

theorem natural?_of_digits (some : cs ≠ []) (digits : ∀ c ∈ cs, c.isDigit = true) :
    natural? cs = .some (digitsValue 0 cs) := by
  rw [natural?, if_pos]
  simpa [some] using digits

/-- A run of digits has no sign. -/
theorem integer?_of_digits (some : cs ≠ []) (digits : ∀ c ∈ cs, c.isDigit = true) :
    integer? cs = .some (Int.ofNat (digitsValue 0 cs)) := by
  have natural := natural?_of_digits some digits
  unfold integer?
  split
  · cases digits '-' List.mem_cons_self
  · cases digits '+' List.mem_cons_self
  · rw [natural]
    rfl

section Digits

variable {n : Nat}

theorem isDigit_of_mem_digits {c : Char} (mem : c ∈ Nat.toDigits 10 n) : c.isDigit = true :=
  Nat.isDigit_of_mem_toDigits (by decide) (by decide) mem

/-- Digits are worth the number they were made of. -/
theorem digitsValue_toDigits (n : Nat) : digitsValue 0 (Nat.toDigits 10 n) = n := by
  have same (acc : Nat) (cs : List Char) : digitsValue acc cs = Nat.ofDigitChars 10 cs acc := by
    induction cs generalizing acc with
    | nil => rfl
    | cons c cs ih => rw [digitsValue_cons, ih, Nat.ofDigitChars_cons]
  rw [same, Nat.ofDigitChars_ten_toDigits]

/-- Of digits, only those of zero start with a zero. -/
theorem head?_toDigits_eq_zero_iff : (Nat.toDigits 10 n).head? = some '0' ↔ n = 0 := by
  induction n using Nat.strongRecOn with
  | ind n ih =>
    rw [Nat.toDigits_eq_if (by decide)]
    split
    · simp
    · have front := ih (n / 10) (by omega)
      obtain ⟨c, cs, same⟩ :=
        List.exists_cons_of_ne_nil (Nat.toDigits_ne_nil (n := n / 10) (b := 10))
      rw [same, List.head?_cons] at front
      rw [same, List.cons_append, List.head?_cons, front]
      omega

end Digits

/-- The digits of a number, behind a sign if it is negative. -/
theorem toList_toString (n : Int) :
    (toString n).toList = (if n < 0 then ['-'] else []) ++ Nat.toDigits 10 n.natAbs := by
  rw [Int.toString_eq_repr, Int.repr_eq_if]
  split
  · rw [if_neg (by omega), Nat.toList_repr, show n.toNat = n.natAbs by omega]
    rfl
  · rw [if_pos (by omega), String.toList_append, Nat.toList_repr,
      show (-n).toNat = n.natAbs by omega]
    rfl

/-- A number is what its digits and its sign spell. -/
theorem integer?_toString (n : Int) : integer? (toString n).toList = some n := by
  rw [toList_toString]
  split
  · rw [List.singleton_append, integer?,
      natural?_of_digits Nat.toDigits_ne_nil fun _ => isDigit_of_mem_digits, digitsValue_toDigits]
    exact congrArg some (show -(n.natAbs : Int) = n by omega)
  · rw [List.nil_append,
      integer?_of_digits Nat.toDigits_ne_nil fun _ => isDigit_of_mem_digits,
      digitsValue_toDigits]
    exact congrArg some (Int.natAbs_of_nonneg (by omega))

end GrammarMachine.Text
