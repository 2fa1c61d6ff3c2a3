import GrammarMachine.Proofs.Lexer.Changes
import GrammarMachine.Proofs.Lexer.Memoryless

/-!
Tokens that come without a diagnostic. Nothing unreadable stands in front of such a token, it is
recognized at the place where it was read, and its text is made of the characters there.
-/

namespace GrammarMachine

/-- The letters among the next `n` readings. -/
def Cursor.letters (c : Cursor) (n : Nat) : List Char :=
  (List.range n).filterMap fun i => (c.ahead i).letter?

namespace Lexer

variable {g : Grammar} {l l' : Lexer} {t : Token}

/-- A token with nothing unreadable in front of it, recognized ahead of some cursor. -/
structure Spelled (g : Grammar) (t : Token) : Prop where
  clean : t.error = false
  recognized : t.isEnd = false → ∃ (c : Cursor) (n : Nat) (info : TokenInfo), 0 < n ∧
    g.lexer.Recognizes c.code 0 n (.token t.id) ∧ g.token? t.id = some info ∧
    t.text = if info.carriesValue then some (.ofList (c.letters n)) else none

/-- A scan moves nothing but the window, and tells what is ahead. -/
theorem yields_scan_ahead {a : Automaton} (closed : a.Closed) (root : 0 < a.states.size)
    (faithful : l.cursor.Faithful) :
    Yields (l.scan a) fun (found, l₁) => l.cursor.Peeked l₁.cursor ∧ l₁.stuck = l.stuck ∧
      ∀ m, found = some m → 0 < m.length ∧ a.Recognizes l.cursor.code 0 m.length m.recognized ∧
        l₁.cursor.text m.length = .ofList (l.cursor.letters m.length) := by
  have inside : (0 : UInt32).toNat < a.states.size := root
  obtain ⟨⟨found, c⟩, result, peeked, answers⟩ :=
    Automaton.ends_longestMatch closed inside faithful
  refine .bind_ok result (.pure ⟨peeked, rfl, fun m some => ?_⟩)
  obtain ⟨rfl, long⟩ := Option.filter_eq_some_iff.1 some
  refine ⟨of_decide_eq_true long, ((answers.found m).1 rfl).1.1, ?_⟩
  rw [Cursor.text_eq peeked.2 (Automaton.seen_longestMatch result),
    Cursor.ahead_of_agrees peeked.1]
  rfl

/-- Within a comment nothing is unexpected. -/
theorem stuck_skipComment {start : Origin} {n nesting : Nat}
    (skipped : skipComment g start n nesting l = .ok l') : l'.stuck = l.stuck := by
  have scans : ∀ {l l₁ : Lexer} {found}, l.scan g.comments = .ok (found, l₁) →
      l₁.stuck = l.stuck := by
    intro l l₁ found scanned
    obtain ⟨_, _, same⟩ := bind_eq_ok_iff.1 scanned
    cases same
    rfl
  have consumes : ∀ {l l₁ : Lexer} {k}, l.consume k = .ok l₁ → l₁.stuck = l.stuck := by
    intro l l₁ k consumed
    obtain ⟨_, _, same⟩ := bind_eq_ok_iff.1 consumed
    cases same
    rfl
  induction n generalizing nesting l with
  | zero => cases skipped
  | succ n ih =>
    unfold skipComment at skipped
    obtain ⟨ended, _, rest⟩ := bind_eq_ok_iff.1 skipped
    split at rest
    · cases rest
      rfl
    · obtain ⟨⟨found, l₁⟩, scanned, rest⟩ := bind_eq_ok_iff.1 rest
      refine Eq.trans ?_ (scans scanned)
      cases found with
      | none =>
        obtain ⟨l₂, consumed, rest⟩ := bind_eq_ok_iff.1 rest
        exact (ih rest).trans (consumes consumed)
      | some m =>
        obtain ⟨l₂, consumed, rest⟩ := bind_eq_ok_iff.1 rest
        refine Eq.trans ?_ (consumes consumed)
        split at rest
        · split at rest
          · exact ih rest
          · split at rest
            · split at rest
              · cases rest
              · cases rest
                rfl
              · exact ih rest
            · split at rest
              · cases rest
                rfl
              · exact ih rest
        · exact ih rest

theorem spelled_nextFrom (sound : g.Sound) {n : Nat} (faithful : l.cursor.Faithful)
    (free : l.stuck = false) (delivered : nextFrom g n false l = .ok (t, l'))
    (clean : l'.diagnostics = #[]) : Spelled g t ∧ l'.stuck = false := by
  induction n generalizing l with
  | zero => cases delivered
  | succ n ih =>
    unfold nextFrom at delivered
    dsimp only at delivered
    obtain ⟨head, looked, rest⟩ := bind_eq_ok_iff.1 delivered
    obtain ⟨_, same, read⟩ := Cursor.yields_head faithful
    cases looked.symm.trans same
    split at rest
    · cases rest
      refine ⟨⟨rfl, fun other => ?_⟩, free⟩
      cases other
    next going =>
    obtain ⟨⟨found, l₁⟩, scanned, rest⟩ := bind_eq_ok_iff.1 rest
    obtain ⟨_, same, peeked, stuck, ahead⟩ :=
      yields_scan_ahead sound.lexer sound.lexer_root faithful
    cases scanned.symm.trans same
    dsimp only at peeked stuck ahead rest
    cases found with
    | none =>
      -- The first unreadable character is reported.
      obtain ⟨l₂, consumed, later⟩ := bind_eq_ok_iff.1 rest
      rw [if_neg (by simp [stuck, free])] at consumed
      obtain ⟨_, _, same⟩ := bind_eq_ok_iff.1 consumed
      cases same
      exact absurd (quiet_of_nextFrom later clean) Array.push_ne_empty
    | some m =>
      obtain ⟨long, recognized, text⟩ := ahead m rfl
      obtain ⟨l₂, consumed, rest⟩ := bind_eq_ok_iff.1 rest
      have inside : (l₁.cursor.reader.source.readAt l₁.cursor.pos).isEnd = false := by
        rw [peeked.1.source, peeked.1.pos, ← read]
        simpa using going
      obtain ⟨_, same, passes⟩ :=
        yields_consume (l := { l₁ with stuck := false }) peeked.2 inside long
      cases consumed.symm.trans same
      have free₂ : l₂.stuck = false := by
        obtain ⟨_, _, same⟩ := bind_eq_ok_iff.1 consumed
        cases same
        rfl
      split at rest
      · next id token =>
        rw [token] at recognized
        split at rest
        · exact ih passes.faithful free₂ rest
        · next info known =>
          split at rest
          · cases rest
            refine ⟨⟨rfl, fun _ => ⟨l.cursor, m.length, info, long, recognized, known, ?_⟩⟩, free₂⟩
            dsimp only
            rw [text]
          · exact ih passes.faithful free₂ rest
      · next start =>
        obtain ⟨l₃, skipped, later⟩ := bind_eq_ok_iff.1 rest
        obtain ⟨⟨_, s, _, here, recognizes⟩, _⟩ := recognized
        have root := sound.comments_root s (Array.mem_of_getElem? here) (recognizes.trans start)
        obtain ⟨_, same, leads⟩ := yields_skipComment sound root passes.faithful Nat.one_pos
          (Nat.lt_succ_self _)
        cases skipped.symm.trans same
        exact ih leads.faithful ((stuck_skipComment skipped).trans free₂) later
      · exact absurd (quiet_of_nextFrom rest clean) Array.push_ne_empty
      · exact ih passes.faithful free₂ rest
      · exact ih passes.faithful free₂ rest

end Lexer

end GrammarMachine
