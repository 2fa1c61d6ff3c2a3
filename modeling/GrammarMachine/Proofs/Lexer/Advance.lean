import GrammarMachine.Proofs.Lexer.Sessions
import GrammarMachine.Samples.Keyword

/-!
Lexing ends and always advances. Guards look ahead a bounded number of levels, scans no further than
the end of text, and a turn that goes on has consumed a character or more: so every loop ends, and
the tokens of a text start one behind the other.
-/

namespace GrammarMachine

namespace Lexer

variable {g : Grammar} {l last : Lexer}

/-- The tokens start behind one another, the first one not in front of the lexer. -/
theorem ascending_tokensFrom (sound : g.Sound) (faithful : l.cursor.Faithful) {n : Nat}
    {ts : List Token} (delivered : tokensFrom g n l = .ok (ts, last)) :
    (∀ t ∈ ts, l.origin.pos ≤ t.origin.pos) ∧
      ts.Pairwise fun t u => t.origin.pos < u.origin.pos := by
  induction n generalizing l ts with
  | zero => cases delivered
  | succ n ih =>
    obtain ⟨⟨t, l'⟩, first, rest⟩ := bind_eq_ok_iff.1 delivered
    have delivers : l.Delivers g t l' := (yields_next sound faithful).holds first
    dsimp only at rest
    split at rest
    · cases rest
      exact ⟨nofun, .nil⟩
    · next going =>
      obtain ⟨⟨others, _⟩, later, same⟩ := bind_eq_ok_iff.1 rest
      cases same
      obtain ⟨behind, ascending⟩ := ih delivers.leads.faithful later
      have inside := delivers.inside (Bool.not_eq_true _ ▸ going)
      have further : ∀ u ∈ others, t.origin.pos < u.origin.pos := fun u mem =>
        Nat.lt_of_lt_of_le inside (behind u mem)
      refine ⟨List.forall_mem_cons.2 ⟨delivers.behind, fun u mem => ?_⟩, .cons further ascending⟩
      exact Nat.le_trans delivers.behind (Nat.le_of_lt (further u mem))

end Lexer

/-- Both loops of a scan end at a cursor: the one for the longest match, and at every place and
depth the one for a continuation that a guard asks for. -/
def Automaton.Decided (a : Automaton) (c : Cursor) : Prop :=
  (∃ found c', a.longestMatch 0 c = .ok (found, c')) ∧
    ∀ s ∈ a.states, ∀ e ∈ s.epsilons, ∀ root, e.continuation = some root → ∀ level place c',
      c.Peeked c' → ∃ holds c'', a.follows level place root c' = .ok (holds, c'')

theorem Automaton.Closed.decided {a : Automaton} (closed : a.Closed) (root : 0 < a.states.size)
    {c : Cursor} (faithful : c.Faithful) : a.Decided c := by
  have inside : (0 : UInt32).toNat < a.states.size := root
  constructor
  · obtain ⟨⟨found, c'⟩, result, _⟩ := ends_longestMatch closed inside faithful
    exact ⟨found, c', result⟩
  · intro s mem e among root continuation level place c' peeked
    have target := closed.continuation s mem e among root continuation
    obtain ⟨⟨holds, c''⟩, result, _⟩ := decides_follows closed c level place root target c' peeked
    exact ⟨holds, c'', result⟩

open Lexer

/-- Every loop of the lexer ends, for every grammar that passes its checks and every source. A call
returns, from wherever a session has come to; each of its turns, and each turn within a comment, is
decided and returns or goes on further on in the source. The tokens of a text start strictly behind
one another. -/
theorem lexing_always_advances {g : Grammar} (valid : g.check = .ok ()) (source : Source) :
    (∀ {ts ds l}, Session g source ts ds l → (∃ t l', l.next g = .ok (t, l')) ∧
      ∃ us es, l.tokens g = .ok (us, es) ∧ us.Pairwise fun t u => t.origin.pos < u.origin.pos) ∧
    (∀ {afterError l}, Seeks g source afterError l → g.lexer.Decided l.cursor ∧
      ∃ turn, step g afterError l = .ok turn ∧ ∀ piece next, turn = .takes piece next →
        l.origin.pos < next.origin.pos ∧ next.cursor.remaining < l.cursor.remaining) ∧
    ∀ {start nesting l}, Within g source start nesting l → g.comments.Decided l.cursor ∧
      (∃ l', skipComment g start l.turns nesting l = .ok l') ∧
      ∃ turn, commentStep g start nesting l = .ok turn ∧ ∀ nesting' next,
        turn = .stays nesting' next →
          l.origin.pos < next.origin.pos ∧ next.cursor.remaining < l.cursor.remaining := by
  have sound := Grammar.sound_of_check valid
  refine ⟨fun {ts ds l} session => ?_, fun {afterError l} seeks => ?_,
    fun {start nesting l} within => ?_⟩
  · have faithful := (session.stands sound).faithful
    obtain ⟨⟨t, l'⟩, delivers, _⟩ := yields_next sound faithful
    obtain ⟨⟨us, last⟩, delivered, _⟩ := yields_tokensFrom sound faithful (Nat.lt_succ_self _)
    refine ⟨⟨t, l', delivers⟩, us, last.diagnostics.toList, ?_,
      (ascending_tokensFrom sound faithful delivered).2⟩
    rw [tokens, turns, delivered]
    rfl
  · have faithful := (seeks.stands sound).faithful
    obtain ⟨turn, result, takes⟩ := yields_step sound faithful afterError
    refine ⟨sound.lexer.decided sound.lexer_root faithful, turn, result, ?_⟩
    rintro piece next rfl
    have passes := passes_of_takes sound takes
    exact ⟨passes.pos_lt, passes.remaining_lt⟩
  · obtain ⟨⟨faithful, _⟩, nested, root⟩ := within.stands sound
    obtain ⟨l', skipped, _⟩ := yields_skipComment sound root faithful nested (Nat.lt_succ_self _)
    obtain ⟨turn, result, skips⟩ := yields_commentStep sound root faithful start nested
    refine ⟨sound.comments.decided root faithful, ⟨l', skipped⟩, turn, result, ?_⟩
    rintro nesting' next rfl
    have passes := (passes_of_stays skips).1
    exact ⟨passes.pos_lt, passes.remaining_lt⟩

/-- A keyword between unreadable characters, which a guard recognizes by the bracket behind it. -/
theorem keyword_lexing_advances :
    Samples.Keyword.grammar.check = .ok () ∧ ∃ us es,
      (Lexer.start (.ofText "é if(ü" false)).tokens Samples.Keyword.grammar = .ok (us, es) ∧
      (us.map fun t => t.origin.pos) = [3, 5] ∧
      us.Pairwise fun t u => t.origin.pos < u.origin.pos := by
  have valid : Samples.Keyword.grammar.check = .ok () := eq_ok_of_toOption (by decide +kernel)
  have placed : ((Lexer.start (.ofText "é if(ü" false)).tokens Samples.Keyword.grammar).toOption.map
      (fun r => r.1.map fun t => t.origin.pos) = some [3, 5] := by
    decide +kernel
  obtain ⟨_, us, es, delivered, ascending⟩ :=
    (lexing_always_advances valid (.ofText "é if(ü" false)).1 .start
  rw [delivered] at placed
  exact ⟨valid, us, es, delivered, Option.some.inj placed, ascending⟩

end GrammarMachine
