import GrammarMachine.Lexer.Basic
import GrammarMachine.Proofs.Success
import Mathlib.Logic.Relation

/-!
What a lexer changes on the way to a token. It moves its cursor and adds diagnostics; the token is
counted at the very end, and the end of text is not.
-/

namespace GrammarMachine.Lexer

variable {g : Grammar} {l l' : Lexer}

inductive Change : Lexer → Lexer → Prop
  | move (l : Lexer) (cursor : Cursor) (stuck : Bool) : Change l { l with cursor, stuck }
  | diagnose (l : Lexer) (o : Origin) (key : Key) (args : List String) :
      Change l (l.diagnose o key args)

/-- One change after the other. -/
abbrev Changes : Lexer → Lexer → Prop :=
  Relation.ReflTransGen Change

theorem changes_scan {a : Automaton} {found : Option Match}
    (scanned : l.scan a = .ok (found, l')) : l.Changes l' := by
  obtain ⟨_, _, same⟩ := bind_eq_ok_iff.1 scanned
  cases same
  exact .single (.move l _ l.stuck)

theorem changes_consume {n : Nat} (consumed : l.consume n = .ok l') : l.Changes l' := by
  obtain ⟨_, _, same⟩ := bind_eq_ok_iff.1 consumed
  cases same
  exact .single (.move l _ l.stuck)

theorem changes_skipComment {start : Origin} {n nesting : Nat}
    (skipped : skipComment g start n nesting l = .ok l') : l.Changes l' := by
  induction n generalizing nesting l with
  | zero => cases skipped
  | succ n ih =>
    unfold skipComment at skipped
    obtain ⟨ended, _, rest⟩ := bind_eq_ok_iff.1 skipped
    split at rest
    · cases rest
      exact .single (.diagnose l _ _ _)
    · obtain ⟨⟨found, l₁⟩, scanned, rest⟩ := bind_eq_ok_iff.1 rest
      refine (changes_scan scanned).trans ?_
      cases found with
      | none =>
        obtain ⟨l₂, consumed, rest⟩ := bind_eq_ok_iff.1 rest
        exact (changes_consume consumed).trans (ih rest)
      | some m =>
        obtain ⟨l₂, consumed, rest⟩ := bind_eq_ok_iff.1 rest
        refine (changes_consume consumed).trans ?_
        split at rest
        · split at rest
          · exact ih rest
          · split at rest
            · split at rest
              · cases rest
              · cases rest
                exact .refl
              · exact ih rest
            · split at rest
              · cases rest
                exact .single (.diagnose l₂ _ _ _)
              · exact ih rest
        · exact ih rest

/-- The last change on the way to a token is to count it, if it does not end the text. -/
def Counts (l : Lexer) (t : Token) (l' : Lexer) : Prop :=
  t.isEnd = true ∧ l' = l ∨ l' = { l with tokenCount := l.tokenCount + 1 }

theorem changes_nextFrom {n : Nat} {afterError : Bool} {t : Token}
    (delivered : nextFrom g n afterError l = .ok (t, l')) :
    ∃ last, l.Changes last ∧ last.Counts t l' := by
  induction n generalizing afterError l with
  | zero => cases delivered
  | succ n ih =>
    have next : ∀ {afterError : Bool} {l₁ : Lexer}, l.Changes l₁ →
        nextFrom g n afterError l₁ = .ok (t, l') → ∃ last, l.Changes last ∧ last.Counts t l' := by
      intro afterError l₁ changes rest
      obtain ⟨last, later, counts⟩ := ih rest
      exact ⟨last, changes.trans later, counts⟩
    unfold nextFrom at delivered
    obtain ⟨head, _, rest⟩ := bind_eq_ok_iff.1 delivered
    split at rest
    · cases rest
      exact ⟨_, .refl, .inl ⟨rfl, rfl⟩⟩
    · obtain ⟨⟨found, l₁⟩, scanned, rest⟩ := bind_eq_ok_iff.1 rest
      have scans := changes_scan scanned
      cases found with
      | none =>
        obtain ⟨l₂, consumed, rest⟩ := bind_eq_ok_iff.1 rest
        refine next (scans.trans ((Relation.ReflTransGen.trans ?_) (changes_consume consumed))) rest
        split
        · exact .refl
        · exact .tail (.single (.diagnose l₁ _ _ _)) (.move _ _ true)
      | some m =>
        obtain ⟨l₂, consumed, rest⟩ := bind_eq_ok_iff.1 rest
        have changes : l.Changes l₂ :=
          (scans.tail (.move l₁ l₁.cursor false)).trans (changes_consume consumed)
        split at rest
        · split at rest
          · exact next changes rest
          · split at rest
            · cases rest
              exact ⟨l₂, changes, .inr rfl⟩
            · exact next changes rest
        · obtain ⟨l₃, skipped, rest⟩ := bind_eq_ok_iff.1 rest
          exact next (changes.trans (changes_skipComment skipped)) rest
        · exact next (changes.tail (.diagnose l₂ _ _ _)) rest
        · exact next changes rest
        · exact next changes rest

theorem Changes.tokenCount (changes : l.Changes l') : l'.tokenCount = l.tokenCount := by
  induction changes with
  | refl => rfl
  | tail _ change ih => cases change <;> exact ih

/-- The lexer never takes a diagnostic back. -/
theorem Changes.le_diagnostics (changes : l.Changes l') :
    l.diagnostics.size ≤ l'.diagnostics.size := by
  induction changes with
  | refl => exact Nat.le_refl _
  | tail _ change ih =>
    cases change with
    | move => exact ih
    | diagnose =>
      refine Nat.le_trans ih ?_
      simp [diagnose]

/-- What has been reported is not lost on the way to a token. -/
theorem le_diagnostics_nextFrom {n : Nat} {afterError : Bool} {t : Token}
    (delivered : nextFrom g n afterError l = .ok (t, l')) :
    l.diagnostics.size ≤ l'.diagnostics.size := by
  obtain ⟨last, changes, counts⟩ := changes_nextFrom delivered
  rcases counts with ⟨_, rfl⟩ | rfl
  · exact changes.le_diagnostics
  · exact changes.le_diagnostics

theorem quiet_of_nextFrom {n : Nat} {afterError : Bool} {t : Token}
    (delivered : nextFrom g n afterError l = .ok (t, l')) (clean : l'.diagnostics = #[]) :
    l.diagnostics = #[] := by
  have few := le_diagnostics_nextFrom delivered
  rw [clean] at few
  exact Array.eq_empty_of_size_eq_zero (Nat.le_zero.1 few)

/-- A token other than the end of text is counted. -/
theorem lt_tokenCount_next {t : Token} (delivered : l.next g = .ok (t, l')) :
    l.tokenCount ≤ l'.tokenCount ∧ (t.isEnd = false → l.tokenCount < l'.tokenCount) := by
  obtain ⟨last, changes, counts⟩ := changes_nextFrom delivered
  have same := changes.tokenCount
  rcases counts with ⟨ended, rfl⟩ | rfl
  · exact ⟨Nat.le_of_eq same.symm, fun going => absurd (ended.symm.trans going) nofun⟩
  · exact ⟨by dsimp only; omega, fun _ => by dsimp only; omega⟩

end GrammarMachine.Lexer
