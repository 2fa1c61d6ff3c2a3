import GrammarMachine.Proofs.Lexer.Changes
import GrammarMachine.Proofs.Lexer.Turns
import GrammarMachine.Proofs.Parse.Expressions
import GrammarMachine.Proofs.Text.Decimal

/-!
Tokens of the calculator that come without a diagnostic. Nothing unreadable stands in front of
them, and numbers carry a run of digits, which is read as the integer that it spells.
-/

namespace GrammarMachine

namespace Samples.Calculator

variable {flavor : Flavor} {null afterError afterError' stuck stuck' : Bool}
  {cs p rest : List Char} {id : UInt32} {text : Option String}

def IsNumeral (text : String) : Prop :=
  text.toList ≠ [] ∧ ∀ c ∈ text.toList, c.isDigit = true

/-- A numeral of any length is read as what it spells, if that is an integer of 64 bits. -/
theorem numeral?_eq {text : String} (numeral : IsNumeral text) :
    numeral? text = int64? (Expr.number text).value := by
  rw [numeral?, Text.integer?_of_digits numeral.1 numeral.2, Text.digitsValue_eq, Nat.zero_mul,
    Nat.zero_add, Option.bind_some, Int.ofNat_eq_natCast, Expr.value]

/-- A token with nothing unreadable in front of it. -/
structure Plain (t : Token) : Prop where
  clean : t.error = false
  numeral : t.id = number → ∃ text, t.text = some text ∧ IsNumeral text

theorem numeral_of_munch (found : munch cs = some (.token number, p, rest)) :
    IsNumeral (String.ofList p) := by
  unfold munch at found
  split at found
  · cases found
  split_ifs at found with blank digit
  · cases found
  · cases found
    refine ⟨by simp, fun d mem => ?_⟩
    rw [String.toList_ofList] at mem
    rcases List.mem_cons.1 mem with rfl | run
    · exact digit
    · exact List.all_eq_true.1 List.all_takeWhile d run
  · cases found
  · cases found
  · obtain ⟨sign, signed, same⟩ := Option.map_eq_some_iff.1 found
    cases same
    unfold sign? at signed
    split_ifs at signed <;> cases signed

theorem numeral_of_turn (delivers : turn afterError stuck cs = .deliver number text rest) :
    ∃ content, text = some content ∧ IsNumeral content := by
  cases cs with
  | nil => cases delivers
  | cons c cs =>
    rw [turn] at delivers
    split at delivers
    · cases delivers
    cases found : munch (c :: cs) with
    | none =>
      rw [found] at delivers
      cases delivers
    | some munched =>
      obtain ⟨recognized, p, behind⟩ := munched
      rw [found] at delivers
      cases recognized with
      | token id =>
        dsimp only at delivers
        split at delivers
        · cases delivers
        · cases delivers
          exact ⟨_, rfl, numeral_of_munch found⟩
      | commentStart =>
        dsimp only at delivers
        split at delivers <;> cases delivers
      | commentEnd => cases delivers
      | nothing => cases delivers
      | followAccept => cases delivers

/-- A turn that goes on without a message has met nothing unreadable. -/
theorem calm_of_turn (goes : turn afterError false cs = .go [] afterError' stuck' rest) :
    afterError' = afterError ∧ stuck' = false := by
  cases cs with
  | nil => cases goes
  | cons c cs =>
    rw [turn] at goes
    split at goes
    · cases goes
    cases found : munch (c :: cs) with
    | none =>
      rw [found] at goes
      cases goes
    | some munched =>
      obtain ⟨recognized, p, behind⟩ := munched
      rw [found] at goes
      cases recognized with
      | token id =>
        dsimp only at goes
        split at goes
        · cases goes
          exact ⟨rfl, rfl⟩
        · cases goes
      | commentStart =>
        dsimp only at goes
        split at goes
        · cases goes
          exact ⟨rfl, rfl⟩
        · cases goes
      | commentEnd => cases goes
      | nothing =>
        cases goes
        exact ⟨rfl, rfl⟩
      | followAccept =>
        cases goes
        exact ⟨rfl, rfl⟩

/-- A number carries a numeral. -/
def Numeric (t : Token) : Prop := t.id = number → ∃ text, t.text = some text ∧ IsNumeral text

/-- Whatever stands in front of them, numbers carry numerals, and the lexer is in front of some
characters again. -/
theorem numeric_nextFrom {n : Nat} {l l' : Lexer} {t : Token} (faces : l.cursor.Faces null cs)
    (delivered : Lexer.nextFrom (grammar flavor) n afterError l = .ok (t, l')) :
    Numeric t ∧ ∃ rest, l'.cursor.Faces null rest := by
  induction n generalizing l cs afterError with
  | zero => cases delivered
  | succ n ih =>
    have turned := turned_nextFrom faces delivered
    cases shape : turn afterError l.stuck cs with
    | ended =>
      rw [shape] at turned
      cases turned
      exact ⟨nofun, cs, faces⟩
    | deliver id text rest =>
      rw [shape] at turned
      obtain ⟨same, faces', _⟩ := turned
      dsimp only at same
      subst same
      refine ⟨?_, rest, faces'⟩
      rintro rfl
      exact numeral_of_turn shape
    | go more afterError' stuck rest =>
      rw [shape] at turned
      obtain ⟨l₁, faces₁, _, _, later⟩ := turned
      exact ih faces₁ later

/-- Between two tokens, the lexer is in front of some characters, and not among unreadable ones. -/
structure Ready (l : Lexer) : Prop where
  faces : ∃ null cs, l.cursor.Faces null cs
  free : l.stuck = false

theorem ready_start (text : String) (null : Bool) : Ready (Lexer.start (.ofText text null)) :=
  ⟨⟨null, _, Cursor.faces_start text null⟩, rfl⟩

theorem plain_nextFrom {n : Nat} {l l' : Lexer} {t : Token} (ready : Ready l)
    (delivered : Lexer.nextFrom (grammar flavor) n false l = .ok (t, l'))
    (clean : l'.diagnostics = #[]) : Plain t ∧ Ready l' := by
  induction n generalizing l with
  | zero => cases delivered
  | succ n ih =>
    obtain ⟨⟨null, cs, faces⟩, free⟩ := ready
    have turned := turned_nextFrom faces delivered
    rw [free] at turned
    cases shape : turn false false cs with
    | ended =>
      rw [shape] at turned
      cases turned
      exact ⟨⟨rfl, nofun⟩, ⟨null, cs, faces⟩, free⟩
    | deliver id text rest =>
      rw [shape] at turned
      obtain ⟨same, faces', free', _⟩ := turned
      dsimp only at same
      subst same
      refine ⟨⟨rfl, ?_⟩, ⟨null, rest, faces'⟩, free'⟩
      rintro rfl
      exact numeral_of_turn shape
    | go more afterError stuck rest =>
      rw [shape] at turned
      obtain ⟨l₁, faces₁, stuck₁, told, later⟩ := turned
      -- What was told on the way would still be there.
      have silent : messages l₁ = [] := by
        rw [messages, Lexer.quiet_of_nextFrom later clean]
        rfl
      obtain ⟨_, rfl⟩ := List.append_eq_nil_iff.1 (told.symm.trans silent)
      obtain ⟨rfl, rfl⟩ := calm_of_turn shape
      exact ih ⟨⟨null, rest, faces₁⟩, stuck₁⟩ later

end Samples.Calculator

end GrammarMachine
