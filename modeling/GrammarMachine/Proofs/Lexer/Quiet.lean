import GrammarMachine.Proofs.Lexer.Changes
import GrammarMachine.Proofs.Lexer.Progress

/-!
Lexing without errors. The lexer never takes a diagnostic back, so a text whose tokens come without
any has none on the way either, token by token.
-/

namespace GrammarMachine.Lexer

variable {g : Grammar} {l l' last : Lexer}

theorem le_diagnostics_tokensFrom {n : Nat} {ts : List Token}
    (delivered : tokensFrom g n l = .ok (ts, last)) :
    l.diagnostics.size ≤ last.diagnostics.size := by
  induction n generalizing l ts with
  | zero => cases delivered
  | succ n ih =>
    obtain ⟨⟨t, l'⟩, first, rest⟩ := bind_eq_ok_iff.1 delivered
    refine Nat.le_trans (le_diagnostics_nextFrom first) ?_
    dsimp only at rest
    split at rest
    · cases rest
      exact Nat.le_refl _
    · obtain ⟨⟨others, _⟩, later, same⟩ := bind_eq_ok_iff.1 rest
      cases same
      exact ih later

/-- With `t` delivered last and the lexer behind it, the tokens from `t` up to the end of text, none
of which comes with a diagnostic. -/
inductive Quiet (g : Grammar) : Token → Lexer → List UInt32 → Prop
  | ended {t : Token} {l : Lexer} (ended : t.isEnd = true) : Quiet g t l []
  | more {t t' : Token} {l l' : Lexer} {ids : List UInt32} (going : t.isEnd = false)
      (next : l.next g = .ok (t', l')) (clean : l'.diagnostics = #[]) (rest : Quiet g t' l' ids) :
      Quiet g t l (t.id :: ids)

/-- The first token and those behind it, none of which comes with a diagnostic. -/
def Starts (g : Grammar) (l : Lexer) (ids : List UInt32) : Prop :=
  ∃ t l', l.next g = .ok (t, l') ∧ l'.diagnostics = #[] ∧ Quiet g t l' ids

theorem starts_of_tokensFrom {n : Nat} {ts : List Token}
    (delivered : tokensFrom g n l = .ok (ts, last)) (clean : last.diagnostics = #[]) :
    l.Starts g (ts.map Token.id) := by
  induction n generalizing l ts with
  | zero => cases delivered
  | succ n ih =>
    obtain ⟨⟨t, l'⟩, first, rest⟩ := bind_eq_ok_iff.1 delivered
    refine ⟨t, l', first, ?_⟩
    dsimp only at rest
    split at rest
    · next ended =>
      cases rest
      exact ⟨clean, .ended ended⟩
    · next going =>
      obtain ⟨⟨others, _⟩, later, same⟩ := bind_eq_ok_iff.1 rest
      cases same
      obtain ⟨t', l'', next, clean', quiet⟩ := ih later
      have none : l'.diagnostics = #[] := by
        have few := le_diagnostics_tokensFrom later
        rw [clean] at few
        exact Array.eq_empty_of_size_eq_zero (Nat.le_zero.1 few)
      exact ⟨none, .more (by simpa using going) next clean' quiet⟩

theorem Starts.tokensFrom (sound : g.Sound) {n : Nat} {ids : List UInt32} (starts : l.Starts g ids)
    (faithful : l.cursor.Faithful) (enough : l.cursor.remaining < n) :
    ∃ ts last, tokensFrom g n l = .ok (ts, last) ∧ ts.map Token.id = ids ∧
      last.diagnostics = #[] := by
  obtain ⟨t, l', first, clean, quiet⟩ := starts
  induction quiet generalizing l n with
  | ended ended =>
    cases n with
    | zero => omega
    | succ n =>
      refine ⟨[], _, ?_, rfl, clean⟩
      rw [Lexer.tokensFrom, first]
      simp [ended, pure, Except.pure]
  | @more t t' l' l'' ids going next clean' _ ih =>
    cases n with
    | zero => omega
    | succ n =>
      obtain ⟨_, same, delivers⟩ := yields_next sound faithful
      cases first.symm.trans same
      have fewer := (delivers.passes going).remaining_lt
      obtain ⟨ts, last, rest, ids, empty⟩ :=
        ih (n := n) delivers.leads.faithful (by omega) next clean'
      refine ⟨t :: ts, last, ?_, by simp [ids], empty⟩
      rw [Lexer.tokensFrom, first]
      simp [going, rest, pure, Except.pure]

/-- All tokens come without a diagnostic exactly if they do one by one. -/
theorem tokens_quiet_iff (sound : g.Sound) (faithful : l.cursor.Faithful) {P : List UInt32 → Prop} :
    (∃ ts, l.tokens g = .ok (ts, []) ∧ P (ts.map Token.id)) ↔ ∃ ids, l.Starts g ids ∧ P ids := by
  constructor
  · rintro ⟨ts, all, holds⟩
    obtain ⟨⟨_, last⟩, delivered, same⟩ := bind_eq_ok_iff.1 all
    simp only [pure, Except.pure, Except.ok.injEq, Prod.mk.injEq] at same
    obtain ⟨rfl, empty⟩ := same
    exact ⟨_, starts_of_tokensFrom delivered (Array.toList_eq_nil_iff.1 empty), holds⟩
  · rintro ⟨ids, starts, holds⟩
    obtain ⟨ts, last, delivered, rfl, clean⟩ :=
      starts.tokensFrom sound faithful (Nat.lt_succ_self _)
    refine ⟨ts, ?_, holds⟩
    rw [tokens, turns, delivered, ok_bind]
    dsimp only
    rw [clean]
    rfl

end GrammarMachine.Lexer
