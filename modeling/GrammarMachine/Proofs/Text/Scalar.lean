import GrammarMachine.Source

/-!
The codes of characters are in the order of the characters, and none of them is negative.
-/

namespace GrammarMachine.Text

theorem toInt_code (c : Char) : (code c).toInt = c.toNat := by
  have bound : c.val.toNat < 0x110000 := by
    rcases c.valid with below | above
    · exact Nat.lt_trans below (by decide)
    · exact above.2
  unfold code
  rw [← Int32.toInt_toBitVec, UInt32.toBitVec_toInt32, BitVec.toInt_eq_toNat_of_lt]
  · rfl
  · change 2 * c.val.toNat < 2 ^ 32
    omega

theorem code_le_code_iff {c d : Char} : code c ≤ code d ↔ c ≤ d := by
  rw [Int32.le_iff_toInt_le, toInt_code, toInt_code, Char.le_def, UInt32.le_iff_toNat_le]
  exact Int.ofNat_le

theorem code_inj {c d : Char} (same : code c = code d) : c = d :=
  Char.le_antisymm (code_le_code_iff.1 (Int32.le_of_eq same))
    (code_le_code_iff.1 (Int32.le_of_eq same.symm))

/-- The end of text comes before every character. -/
theorem not_code_le_endCode (c : Char) : ¬code c ≤ endCode := by
  rw [Int32.le_iff_toInt_le, toInt_code]
  change ¬((c.toNat : Int) ≤ -1)
  omega

end GrammarMachine.Text
