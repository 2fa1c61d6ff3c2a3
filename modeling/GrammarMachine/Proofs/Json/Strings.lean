import Mathlib.Tactic.SplitIfs
import GrammarMachine.Json.Reader
import GrammarMachine.Json.Writer

/-!
Strings are read as they were written. `Spells bytes text` says that `bytes`, in front of the rest
of a string literal, stand for the bytes `text`: a character that needs no escape stands for its own
bytes, and an escape for those of the character that it names.
-/

namespace GrammarMachine.Json

/-- The bytes of some characters. -/
def encoded (cs : List Char) : List UInt8 := cs.flatMap String.utf8EncodeChar

@[simp] theorem encoded_nil : encoded [] = [] := rfl

@[simp]
theorem encoded_append (cs ds : List Char) : encoded (cs ++ ds) = encoded cs ++ encoded ds :=
  List.flatMap_append

theorem encoded_cons (c : Char) (cs : List Char) :
    encoded (c :: cs) = String.utf8EncodeChar c ++ encoded cs := rfl

theorem toUTF8_eq_encoded (s : String) : s.toUTF8.data.toList = encoded s.toList := by
  rw [String.toUTF8, ← String.utf8Encode_toList, List.utf8Encode, List.data_toByteArray]
  rfl

theorem fromUTF8?_encoded (s : String) :
    String.fromUTF8? (encoded s.toList).toByteArray = some s := by
  change String.fromUTF8? s.toList.utf8Encode = some s
  rw [String.utf8Encode_toList]
  exact dif_pos s.isValidUTF8

theorem toNat_ascii {c : Char} (small : c.toNat < 0x80) : (ascii c).toNat = c.toNat := by
  rw [ascii, Nat.toUInt8_eq, UInt8.toNat_ofNat']
  omega

theorem ascii_inj {c d : Char} (small : c.toNat < 0x80) (small' : d.toNat < 0x80)
    (same : ascii c = ascii d) : c = d := by
  have same := congrArg UInt8.toNat same
  rw [toNat_ascii small, toNat_ascii small'] at same
  exact Char.toNat_inj.1 same

theorem utf8EncodeChar_of_ascii {c : Char} (small : c.toNat < 0x80) :
    String.utf8EncodeChar c = [ascii c] :=
  if_pos (Nat.le_of_lt_succ small)

theorem encoded_of_ascii {cs : List Char} (small : ∀ c ∈ cs, c.toNat < 0x80) :
    encoded cs = cs.map ascii := by
  induction cs with
  | nil => rfl
  | cons c cs ih =>
    obtain ⟨first, others⟩ := List.forall_mem_cons.1 small
    rw [encoded_cons, utf8EncodeChar_of_ascii first, ih others]
    rfl

/-- The bytes of a character beyond ASCII are beyond ASCII. -/
theorem wide_of_mem {c : Char} (wide : 0x80 ≤ c.toNat) {b : UInt8}
    (mem : b ∈ String.utf8EncodeChar c) : 0x80 ≤ b := by
  have wide : ¬c.val.toNat ≤ 127 := Nat.not_le.2 wide
  simp only [String.utf8EncodeChar, wide, if_false] at mem
  rw [UInt8.le_iff_toNat_le]
  change 0x80 ≤ b.toNat
  split at mem
  · simp at mem
    rcases mem with rfl | rfl <;> simp <;> omega
  · split at mem
    · simp at mem
      rcases mem with rfl | rfl | rfl <;> simp <;> omega
    · simp at mem
      rcases mem with rfl | rfl | rfl | rfl <;> simp <;> omega

section Spelling

variable {bytes more text text' rest : List UInt8} {ps : List Piece}

attribute [local simp] pieces spell

/-- In front of the rest of a string literal, `bytes` stand for `text`. -/
def Spells (bytes text : List UInt8) : Prop :=
  ∀ (rest behind out : List UInt8) (ps : List Piece), pieces rest = some (ps, behind) →
    spell ps = some out →
    ∃ qs, pieces (bytes ++ rest) = some (qs, behind) ∧ spell qs = some (text ++ out)

theorem spells_nil : Spells [] [] := fun _ _ _ _ read spelled => ⟨_, read, spelled⟩

theorem Spells.append (first : Spells bytes text) (second : Spells more text') :
    Spells (bytes ++ more) (text ++ text') := by
  intro rest behind out ps read spelled
  obtain ⟨qs, read, spelled⟩ := second _ _ _ _ read spelled
  obtain ⟨qs, read, spelled⟩ := first _ _ _ _ read spelled
  exact ⟨qs, by rw [List.append_assoc, read], by rw [List.append_assoc, spelled]⟩

/-- A byte that needs no escape. -/
def Plain (b : UInt8) : Prop := b ≠ 0x22 ∧ b ≠ 0x5c ∧ 0x20 ≤ b

theorem pieces_of_plain {b : UInt8} (plain : Plain b) :
    pieces (b :: rest) = consPiece (.byte b) (pieces rest) := by
  obtain ⟨quote, backslash, printed⟩ := plain
  rw [pieces]
  · have quote : (b == ascii '"') = false := beq_eq_false_iff_ne.2 quote
    have backslash : (b == ascii '\\') = false := beq_eq_false_iff_ne.2 backslash
    simp only [quote, backslash, UInt8.not_lt.2 printed, decide_false, Bool.or_self,
      Bool.false_eq_true, if_false]
  · exact fun _ _ _ _ _ same _ => backslash same
  · exact fun _ _ same _ => backslash same

theorem spells_plain (plain : ∀ b ∈ bytes, Plain b) : Spells bytes bytes := by
  induction bytes with
  | nil => exact spells_nil
  | cons b bytes ih =>
    obtain ⟨first, others⟩ := List.forall_mem_cons.1 plain
    intro rest behind out ps read spelled
    obtain ⟨qs, read, spelled⟩ := ih others _ _ _ _ read spelled
    refine ⟨.byte b :: qs, ?_, ?_⟩
    · rw [List.cons_append, pieces_of_plain first, read]
      rfl
    · simp [spelled]

/-- A letter behind a backslash. -/
theorem spells_short {letter b : UInt8} (short : shortEscape? letter = some b)
    (other : letter ≠ 0x75) : Spells [0x5c, letter] [b] := by
  intro rest behind out ps read spelled
  refine ⟨.byte b :: ps, ?_, ?_⟩
  · rw [List.cons_append, List.singleton_append, pieces]
    · rw [short, read]
      rfl
    · exact fun _ _ _ _ _ same _ => other same
  · simp [spelled]

/-- A code unit that is no surrogate stands for its code point, whatever follows. -/
theorem spell_unit {code : Nat} (small : code < 0xd800) (ps : List Piece) :
    spell (.unit code :: ps) = (spell ps).map (utf8 code ++ ·) := by
  have high : isHighSurrogate code = false := by simp [isHighSurrogate]; omega
  have low : isLowSurrogate code = false := by simp [isLowSurrogate]; omega
  match ps with
  | [] => simp [high, low]
  | .unit _ :: _ => simp [high, low]
  | .byte _ :: _ => simp [high, low]

theorem spells_unit {a b c d : UInt8} {code : Nat} (unit : unit? a b c d = some code)
    (small : code < 0xd800) : Spells [0x5c, 0x75, a, b, c, d] (utf8 code) := by
  intro rest behind out ps read spelled
  refine ⟨.unit code :: ps, ?_, ?_⟩
  · change pieces (0x5c :: 0x75 :: a :: b :: c :: d :: rest) = _
    rw [pieces, unit, read]
    rfl
  · rw [spell_unit small, spelled]
    rfl

end Spelling

/-- The bytes of a character that needs no escape. -/
theorem plain_of_mem {c : Char} (quote : c ≠ '"') (backslash : c ≠ '\\') (printed : 0x20 ≤ c.toNat)
    {b : UInt8} (mem : b ∈ String.utf8EncodeChar c) : Plain b := by
  by_cases small : c.toNat < 0x80
  · rw [utf8EncodeChar_of_ascii small, List.mem_singleton] at mem
    refine ⟨fun eq => quote ?_, fun eq => backslash ?_, ?_⟩
    · exact ascii_inj small (by decide) (mem.symm.trans eq)
    · exact ascii_inj small (by decide) (mem.symm.trans eq)
    · rw [mem, UInt8.le_iff_toNat_le, toNat_ascii small]
      exact printed
  · have wide := UInt8.le_iff_toNat_le.1 (wide_of_mem (Nat.not_lt.1 small) mem)
    change 0x80 ≤ b.toNat at wide
    refine ⟨?_, ?_, UInt8.le_iff_toNat_le.2 (Nat.le_trans (by decide) wide)⟩
    all_goals
      rintro rfl
      exact absurd wide (by decide)

theorem utf8_toNat (c : Char) : utf8 c.toNat = String.utf8EncodeChar c := by
  rw [utf8, toUTF8_eq_encoded, String.toList_ofList, Char.ofNat_toNat, encoded_cons, encoded_nil,
    List.append_nil]

/-- The four digits of a control character spell its code. -/
theorem unit?_hex : ∀ n < 0x20,
    encoded (Text.hex 4 n).toList =
        [0x30, 0x30, ascii (Nat.digitChar (n / 16)), ascii (Nat.digitChar (n % 16))] ∧
      unit? 0x30 0x30 (ascii (Nat.digitChar (n / 16))) (ascii (Nat.digitChar (n % 16))) =
        some n := by
  decide +kernel

/-- However a character is escaped, it stands for itself. -/
theorem spells_escape (c : Char) :
    Spells (encoded (escape c).toList) (String.utf8EncodeChar c) := by
  unfold escape
  split_ifs with quote backslash newline ret tab back feed control
  · subst quote
    exact spells_short (by decide) (by decide)
  · subst backslash
    exact spells_short (by decide) (by decide)
  · subst newline
    exact spells_short (by decide) (by decide)
  · subst ret
    exact spells_short (by decide) (by decide)
  · subst tab
    exact spells_short (by decide) (by decide)
  · rw [← Char.ofNat_toNat c, back]
    exact spells_short (by decide) (by decide)
  · rw [← Char.ofNat_toNat c, feed]
    exact spells_short (by decide) (by decide)
  · obtain ⟨digits, unit⟩ := unit?_hex c.toNat control
    rw [String.toList_append, encoded_append, digits, ← utf8_toNat]
    exact spells_unit unit (by omega)
  · rw [String.toList_ofList, encoded_cons, encoded_nil, List.append_nil]
    exact spells_plain fun b => plain_of_mem quote backslash (Nat.not_lt.1 control)

theorem spells_escapes (cs : List Char) :
    Spells (encoded (cs.flatMap fun c => (escape c).toList)) (encoded cs) := by
  induction cs with
  | nil => exact spells_nil
  | cons c cs ih =>
    rw [List.flatMap_cons, encoded_append]
    exact (spells_escape c).append ih

theorem toList_quote (text : String) :
    (quote text).toList = '"' :: (text.toList.flatMap fun c => (escape c).toList) ++ ['"'] := by
  have fold (cs : List Char) (out : String) :
      (cs.foldl (fun out c => out ++ escape c) out).toList =
        out.toList ++ cs.flatMap fun c => (escape c).toList := by
    induction cs generalizing out with
    | nil => simp
    | cons c cs ih => rw [List.foldl_cons, ih, String.toList_append, List.append_assoc]; rfl
  rw [quote, String.toList_append, fold]
  rfl

/-- What is quoted is read behind the opening quote. -/
theorem stringLiteral_quote (text : String) (rest : List UInt8) :
    ∃ body, encoded (quote text).toList = 0x22 :: body ∧
      stringLiteral (body ++ rest) = some (some text, rest) := by
  refine ⟨encoded (text.toList.flatMap fun c => (escape c).toList) ++ [0x22], ?_, ?_⟩
  · rw [toList_quote, encoded_append, encoded_cons]
    rfl
  · have close : pieces (0x22 :: rest) = some ([], rest) := by
      rw [pieces]
      · rfl
      · exact fun _ _ _ _ _ same _ => absurd same (by decide)
      · exact fun _ _ same _ => absurd same (by decide)
    obtain ⟨ps, read, spelled⟩ := spells_escapes text.toList _ _ _ _ close rfl
    rw [List.append_nil] at spelled
    rw [List.append_assoc, List.singleton_append, stringLiteral, read]
    simp only [Option.bind_eq_bind, Option.bind_some, spellText, spelled, fromUTF8?_encoded]
    rfl

end GrammarMachine.Json
