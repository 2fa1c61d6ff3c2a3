import Mathlib.Data.Nat.Digits.Defs
import GrammarMachine.Message
import GrammarMachine.Proofs.Text.Decimal

/-!
Substitution in one pass. A template is cut in exactly one way: into groups, each a caret with all
the digits behind it, and characters that stand for themselves. The result is what the pieces stand
for, one behind the other, so nothing that was substituted is looked at again.
-/

namespace GrammarMachine.Message

/-- A character that stands for itself, or a caret with the digits behind it. -/
inductive Piece where
  | plain (c : Char)
  | group (digits : List Char)

/-- The digits of a group end in front of `rest`. -/
def Ends (digits rest : List Char) : Prop :=
  (∀ c ∈ digits, c.isDigit = true) ∧ ∀ c ∈ rest.head?, c.isDigit = false

/-- The pieces that a template is made of. -/
inductive Cuts : List Piece → List Char → Prop
  | nil : Cuts [] []
  | plain {c : Char} {pieces : List Piece} {rest : List Char} (other : c ≠ '^')
      (tail : Cuts pieces rest) : Cuts (.plain c :: pieces) (c :: rest)
  | group {digits : List Char} {pieces : List Piece} {rest : List Char} (ends : Ends digits rest)
      (tail : Cuts pieces rest) : Cuts (.group digits :: pieces) ('^' :: (digits ++ rest))

namespace Piece

/-- A piece as it stands in the template. -/
def text : Piece → List Char
  | plain c => [c]
  | group digits => '^' :: digits

/-- What a piece stands for: a group with a number for the substitution of that number, if there is
one, and anything else for itself. -/
def meaning (subs : List String) : Piece → List Char
  | plain c => [c]
  | group digits =>
    let number := Nat.ofDigits 10 (digits.reverse.map fun c => c.toNat - '0'.toNat)
    if digits ≠ [] ∧ number < indexBound then
      match subs[number]? with
      | some sub => sub.toList
      | none => '^' :: digits
    else '^' :: digits

/-- There is nothing to substitute. -/
theorem meaning_nil (piece : Piece) : piece.meaning [] = piece.text := by
  cases piece <;> simp [meaning, text]

end Piece

variable {subs : List String} {digits rest template : List Char} {pieces pieces' : List Piece}

theorem Ends.takeWhile_eq (ends : Ends digits rest) :
    (digits ++ rest).takeWhile Char.isDigit = digits := by
  obtain ⟨run, stop⟩ := ends
  rw [List.takeWhile_append_of_pos run]
  cases rest with
  | nil => simp
  | cons c rest => simp [stop c rfl]

theorem ends_takeWhile (cs : List Char) :
    Ends (cs.takeWhile Char.isDigit) (cs.dropWhile Char.isDigit) := by
  refine ⟨fun c mem => List.all_eq_true.1 List.all_takeWhile c mem, fun c head => ?_⟩
  have stop := List.head?_dropWhile_not Char.isDigit cs
  rw [Option.mem_def.1 head] at stop
  exact stop

/-- Every template is cut somehow. -/
theorem exists_cuts (template : List Char) : ∃ pieces, Cuts pieces template := by
  induction size : template.length using Nat.strong_induction_on generalizing template with
  | _ n ih =>
    subst size
    cases template with
    | nil => exact ⟨[], .nil⟩
    | cons c rest =>
      by_cases caret : c = '^'
      · have shorter := (List.dropWhile_sublist Char.isDigit (l := rest)).length_le
        obtain ⟨pieces, tail⟩ := ih _ (Nat.lt_succ_of_le shorter) (rest.dropWhile Char.isDigit) rfl
        have whole := Cuts.group (ends_takeWhile rest) tail
        rw [List.takeWhile_append_dropWhile] at whole
        exact ⟨_, caret ▸ whole⟩
      · obtain ⟨pieces, tail⟩ := ih _ (Nat.lt_succ_self _) rest rfl
        exact ⟨_, .plain caret tail⟩

/-- No template is cut in two ways. -/
theorem Cuts.unique (cuts : Cuts pieces template) (cuts' : Cuts pieces' template) :
    pieces' = pieces := by
  induction cuts generalizing pieces' with
  | nil =>
    cases cuts'
    rfl
  | plain other _ ih =>
    cases cuts' with
    | plain _ tail' => rw [ih tail']
    | group => exact absurd rfl other
  | @group digits _ rest ends _ ih =>
    generalize same : digits ++ rest = behind at cuts'
    cases cuts' with
    | plain other => exact absurd rfl other
    | @group digits' _ rest' ends' tail' =>
      have run : digits' = digits := by
        rw [← ends.takeWhile_eq, same, ends'.takeWhile_eq]
      subst run
      cases List.append_cancel_left same
      rw [ih tail']

theorem Cuts.flatMap_text (cuts : Cuts pieces template) : pieces.flatMap Piece.text = template := by
  induction cuts with
  | nil => rfl
  | plain _ _ ih => rw [List.flatMap_cons, ih]; rfl
  | group _ _ ih => rw [List.flatMap_cons, ih]; rfl

theorem expand_eq_meaning (run : ∀ c ∈ digits, c.isDigit = true) :
    expand subs digits = (Piece.group digits).meaning subs := by
  by_cases empty : digits = []
  · simp [expand, Piece.meaning, empty, Text.natural?]
  · have natural := Text.natural?_of_digits empty run
    rw [Text.digitsValue_eq, Nat.zero_mul, Nat.zero_add] at natural
    simp only [expand, Piece.meaning, natural, ne_eq, empty, not_false_eq_true, true_and,
      Option.bind_eq_bind, Option.bind_some]
    grind

section Runs

attribute [local simp] expandFrom

/-- Digits are set aside until their run ends. -/
theorem expandFrom_digits (run : ∀ c ∈ digits, c.isDigit = true) (seen : List Char) :
    expandFrom subs (some seen) (digits ++ rest) =
      expandFrom subs (some (digits.reverse ++ seen)) rest := by
  induction digits generalizing seen with
  | nil => rfl
  | cons c digits ih =>
    obtain ⟨digit, others⟩ := List.forall_mem_cons.1 run
    rw [List.cons_append, expandFrom, if_pos digit, ih others, List.reverse_cons,
      List.append_assoc]
    rfl

theorem expandFrom_of_ends (ends : Ends digits rest) :
    expandFrom subs (some []) (digits ++ rest) =
      expand subs digits ++ expandFrom subs none rest := by
  rw [expandFrom_digits ends.1, List.append_nil]
  cases rest with
  | nil => simp
  | cons c rest =>
    have stop : c.isDigit = false := ends.2 c rfl
    rw [expandFrom, expandFrom, stop, List.reverse_reverse, if_neg Bool.false_ne_true]
    split <;> rfl

theorem expandFrom_of_cuts (cuts : Cuts pieces template) :
    expandFrom subs none template = pieces.flatMap (Piece.meaning subs) := by
  induction cuts with
  | nil => rfl
  | plain other _ ih =>
    rw [expandFrom, if_neg other, ih]
    rfl
  | group ends _ ih =>
    rw [expandFrom, if_pos rfl, expandFrom_of_ends ends, ih, expand_eq_meaning ends.1]
    rfl

end Runs

/-- A template is cut in one way only, and what its pieces stand for, one behind the other, is what
becomes of it. Without substitutions it stays as it is. -/
theorem substitution_is_a_single_pass (template : String) (subs : List String) :
    (∃ pieces, Cuts pieces template.toList ∧
      (∀ pieces', Cuts pieces' template.toList → pieces' = pieces) ∧
      (substitute template subs).toList = pieces.flatMap (Piece.meaning subs)) ∧
    substitute template [] = template := by
  obtain ⟨pieces, cuts⟩ := exists_cuts template.toList
  refine ⟨⟨pieces, cuts, fun _ => cuts.unique, ?_⟩, ?_⟩
  · rw [substitute, String.toList_ofList, expandFrom_of_cuts cuts]
  · rw [substitute, expandFrom_of_cuts cuts, funext Piece.meaning_nil, cuts.flatMap_text,
      String.ofList_toList]

/-- Leading zeros are allowed, substituted carets stay, and the rest is copied. -/
example : substitute "^1^00é^7^" ["x^1", "^0"] = "^0x^1é^7^" := by decide +kernel

end GrammarMachine.Message
