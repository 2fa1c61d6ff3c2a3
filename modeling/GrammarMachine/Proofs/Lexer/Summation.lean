import GrammarMachine.Proofs.Lexer.Numerals
import GrammarMachine.Proofs.Lexer.Spelling
import GrammarMachine.Samples.Summation

/-!
Numbers between commas. Only digits lead to the state that recognizes a number, so a number carries
a numeral.
-/

namespace GrammarMachine

/-- What is read between two digits is a digit. -/
theorem Reading.exists_digit {r : Reading} (low : Text.code '0' ≤ r.code)
    (high : r.code ≤ Text.code '9') : ∃ d : Char, r.letter? = some d ∧ d.isDigit = true := by
  rw [Int32.le_iff_toInt_le, Text.toInt_code] at low high
  obtain ⟨n, value⟩ := Int.eq_ofNat_of_zero_le (Int.le_trans (by decide) low)
  rw [value] at low high
  have digits : ∀ n ≤ 57, 48 ≤ n → (Char.ofNat n).toNat = n ∧ (Char.ofNat n).isDigit = true := by
    decide
  obtain ⟨same, digit⟩ := digits n (Int.ofNat_le.1 high) (Int.ofNat_le.1 low)
  have letter : Char.ofNat n ≠ '\x00' := by
    intro null
    rw [null] at digit
    cases digit
  have code : r.code = Text.code (Char.ofNat n) := by
    rw [← Int32.toInt_inj, Text.toInt_code, value, same]
  refine ⟨Char.ofNat n, ?_, digit⟩
  rw [← Reading.letter?_ofChar letter, Reading.letter?, Reading.letter?, code]
  rfl

namespace Samples.Summation

open Calculator (IsNumeral)

theorem epsilons_eq : ∀ s ∈ lexer.states, s.epsilons = [] := by
  decide +kernel

theorem states_spec : ∀ (i : Nat) (inside : i < lexer.states.size),
    (lexer.states[i].recognized = .token number → i = 3) ∧ ∀ r ∈ lexer.states[i].ranges,
      r.target ≠ 0 ∧
        (r.target = 3 → (i = 0 ∨ i = 3) ∧ Text.code '0' ≤ r.low ∧ r.high ≤ Text.code '9') := by
  decide +kernel

/-- Digits alone lead to the third state, and nothing leads back to the root. -/
theorem digits_of_reaches {c : Cursor} {holds : Nat → UInt32 → Prop} {i : Nat} {id : UInt32}
    (reached : lexer.Reaches c.code holds 0 0 i id) :
    (id = 0 → i = 0) ∧
      (id = 3 → ∀ j < i, ∃ d : Char, (c.ahead j).letter? = some d ∧ d.isDigit = true) := by
  induction reached with
  | root => exact ⟨fun _ => rfl, nofun⟩
  | @range i id target s _ _ here moves ih =>
    obtain ⟨r, mem, low, high, rfl⟩ := moves
    obtain ⟨inside, rfl⟩ := Array.getElem?_eq_some_iff.1 here
    obtain ⟨other, digits⟩ := (states_spec id.toNat inside).2 r mem
    refine ⟨fun zero => absurd zero other, fun three j lt => ?_⟩
    obtain ⟨source, above, below⟩ := digits three
    rcases Nat.lt_succ_iff_lt_or_eq.1 lt with before | rfl
    · rcases source with zero | three
      · have none := ih.1 (UInt32.toNat_inj.1 zero)
        omega
      · exact ih.2 (UInt32.toNat_inj.1 three) j before
    · exact Reading.exists_digit (Int32.le_trans above low) (Int32.le_trans high below)
  | epsilon _ here mem =>
    rw [epsilons_eq _ (Array.mem_of_getElem? here)] at mem
    cases mem

/-- A number carries a numeral. -/
theorem numeral_of_spelled {t : Token} (spelled : Lexer.Spelled grammar t)
    (digits : t.id = number) : ∃ text, t.text = some text ∧ IsNumeral text := by
  have going : t.isEnd = false := by
    rw [Token.isEnd, digits]
    rfl
  obtain ⟨c, n, info, long, recognized, known, text⟩ := spelled.recognized going
  rw [digits] at recognized known
  cases known
  refine ⟨_, text, ?_⟩
  obtain ⟨⟨id, s, reached, here, recognizes⟩, _⟩ := recognized
  obtain ⟨inside, rfl⟩ := Array.getElem?_eq_some_iff.1 here
  have three : id = 3 := UInt32.toNat_inj.1 ((states_spec id.toNat inside).1 recognizes)
  have each := (digits_of_reaches reached).2 three
  constructor
  · obtain ⟨d, first, _⟩ := each 0 long
    have mem : d ∈ c.letters n := List.mem_filterMap.2 ⟨0, List.mem_range.2 long, first⟩
    rw [String.toList_ofList]
    exact List.ne_nil_of_mem mem
  · intro d mem
    rw [String.toList_ofList] at mem
    obtain ⟨j, inside, found⟩ := List.mem_filterMap.1 mem
    obtain ⟨d', found', digit⟩ := each j (List.mem_range.1 inside)
    cases found.symm.trans found'
    exact digit

end Samples.Summation

end GrammarMachine
