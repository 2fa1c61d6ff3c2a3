import GrammarMachine.Lexer.Basic
import GrammarMachine.Proofs.Lexer.Scanning

/-!
The lexer of a sound grammar delivers a token from every place of every source. Each turn of its
loops that does not end them consumes a character, so the units left bound the turns; and a token
other than the end of text leaves fewer of them.
-/

namespace GrammarMachine.Lexer

variable {g : Grammar} {l l' l'' : Lexer}

/-- The same source, read on from there or from further on. -/
structure Leads (l l' : Lexer) : Prop where
  faithful : l'.cursor.Faithful
  source : l'.cursor.reader.source = l.cursor.reader.source
  pos : l.cursor.pos ≤ l'.cursor.pos

/-- The same source, with some of it consumed. -/
structure Passes (l l' : Lexer) : Prop extends l.Leads l' where
  pos_lt : l.cursor.pos < l'.cursor.pos
  remaining_lt : l'.cursor.remaining < l.cursor.remaining

theorem Leads.trans (first : l.Leads l') (second : l'.Leads l'') : l.Leads l'' :=
  ⟨second.faithful, second.source.trans first.source, Nat.le_trans first.pos second.pos⟩

theorem Leads.remaining_le (leads : l.Leads l') : l'.cursor.remaining ≤ l.cursor.remaining := by
  have pos := leads.pos
  unfold Cursor.remaining
  rw [leads.source]
  omega

theorem Passes.trans_leads (first : l.Passes l') (second : l'.Leads l'') : l.Passes l'' where
  toLeads := first.toLeads.trans second
  pos_lt := Nat.lt_of_lt_of_le first.pos_lt second.pos
  remaining_lt := Nat.lt_of_le_of_lt second.remaining_le first.remaining_lt

theorem Leads.trans_passes (first : l.Leads l') (second : l'.Passes l'') : l.Passes l'' where
  toLeads := first.trans second.toLeads
  pos_lt := Nat.lt_of_le_of_lt first.pos second.pos_lt
  remaining_lt := Nat.lt_of_lt_of_le second.remaining_lt first.remaining_le

/-- Only the cursor counts for the place of a lexer. -/
theorem Leads.congr (leads : l.Leads l') (same : l''.cursor = l'.cursor) : l.Leads l'' := by
  obtain ⟨faithful, source, pos⟩ := leads
  rw [← same] at faithful source pos
  exact ⟨faithful, source, pos⟩

theorem Passes.congr (passes : l.Passes l') (same : l''.cursor = l'.cursor) : l.Passes l'' where
  toLeads := passes.toLeads.congr same
  pos_lt := same ▸ passes.pos_lt
  remaining_lt := same ▸ passes.remaining_lt

theorem leads_of_peeked (peeked : l.cursor.Peeked l'.cursor) : l.Leads l' :=
  ⟨peeked.2, peeked.1.source, Nat.le_of_eq peeked.1.pos.symm⟩

theorem yields_scan {a : Automaton} (closed : a.Closed) (root : 0 < a.states.size)
    (faithful : l.cursor.Faithful) :
    Yields (l.scan a) fun (found, l') => l.cursor.Peeked l'.cursor ∧
      ∀ m, found = some m → 0 < m.length ∧ ∃ s ∈ a.states, s.recognized = m.recognized := by
  have inside : (0 : UInt32).toNat < a.states.size := root
  refine Yields.bind (Automaton.ends_longestMatch closed inside faithful) ?_
  rintro ⟨found, cursor⟩ ⟨peeked, answers⟩
  refine .pure ⟨peeked, fun m eq => ?_⟩
  obtain ⟨whole, long⟩ := Option.filter_eq_some_iff.1 eq
  exact ⟨of_decide_eq_true long, answers.known whole⟩

/-- In front of the end of text, consuming a character or more moves on. -/
theorem yields_consume {n : Nat} (faithful : l.cursor.Faithful)
    (inside : (l.cursor.reader.source.readAt l.cursor.pos).isEnd = false) (pos : 0 < n) :
    Yields (l.consume n) l.Passes := by
  have bound := Source.add_lt_stop (s := l.cursor.reader.source) (p := l.cursor.pos) (i := 0) inside
  refine (Cursor.yields_consume faithful (by omega) n).bind ?_
  intro cursor ⟨faithful', source, moved⟩
  have further : l.cursor.pos < cursor.pos := by
    rw [moved]
    exact Source.lt_reach inside pos
  refine .pure ⟨⟨faithful', source, Nat.le_of_lt further⟩, further, ?_⟩
  dsimp only [Cursor.remaining]
  rw [source]
  omega

theorem yields_skipComment (sound : g.Sound) (root : 0 < g.comments.states.size) {start : Origin}
    {n nesting : Nat} (faithful : l.cursor.Faithful) (nested : 0 < nesting)
    (enough : l.cursor.remaining < n) :
    Yields (skipComment g start n nesting l) l.Leads := by
  induction n generalizing nesting l with
  | zero => omega
  | succ n ih =>
    -- Every way on starts behind a character consumed, with the comment still open.
    have next : ∀ {nesting : Nat} {l' : Lexer}, l.Passes l' → 0 < nesting →
        Yields (skipComment g start n nesting l') l.Leads := by
      intro nesting l' passes nested
      have fewer := passes.remaining_lt
      exact (ih passes.faithful nested (by omega)).mono fun _ => passes.toLeads.trans
    unfold skipComment
    refine (Cursor.yields_atEnd faithful).bind fun ended read => ?_
    split
    · exact .pure ⟨faithful, rfl, Nat.le_refl _⟩
    · next going =>
      have inside := read.symm.trans (Bool.not_eq_true _ ▸ going)
      refine (yields_scan sound.comments root faithful).bind fun (found, l₁) ⟨peeked, long⟩ => ?_
      have same := leads_of_peeked peeked
      have inside₁ : (l₁.cursor.reader.source.readAt l₁.cursor.pos).isEnd = false := by
        rwa [peeked.1.source, peeked.1.pos]
      cases found with
      | none =>
        exact (yields_consume same.faithful inside₁ Nat.one_pos).bind fun l₂ passes =>
          next (same.trans_passes passes) nested
      | some m =>
        refine (yields_consume same.faithful inside₁ (long m rfl).1).bind fun l₂ passes => ?_
        have passes := same.trans_passes passes
        split
        · split
          · exact next passes (Nat.succ_pos _)
          · split
            · split
              · omega
              · exact .pure passes.toLeads
              · exact next passes (Nat.succ_pos _)
            · split
              · exact .pure (passes.toLeads.congr rfl)
              · exact next passes nested
        · exact next passes nested

/-- A token, and the lexer behind it: the token is one of the grammar's, it starts between the two
places of the lexer, and unless it ends the text some of the text has been consumed. -/
structure Delivers (g : Grammar) (l : Lexer) (t : Token) (l' : Lexer) : Prop where
  leads : l.Leads l'
  known : t.id.toNat < g.tokens.size
  passes : t.isEnd = false → l.Passes l'
  behind : l.cursor.pos ≤ t.origin.pos
  before : t.origin.pos ≤ l'.cursor.pos
  inside : t.isEnd = false → t.origin.pos < l'.cursor.pos

theorem yields_nextFrom (sound : g.Sound) {n : Nat} {afterError : Bool}
    (faithful : l.cursor.Faithful) (enough : l.cursor.remaining < n) :
    Yields (nextFrom g n afterError l) fun (t, l') => l.Delivers g t l' := by
  induction n generalizing afterError l with
  | zero => omega
  | succ n ih =>
    have next : ∀ {afterError : Bool} {l' : Lexer}, l.Passes l' →
        Yields (nextFrom g n afterError l') fun (t, l'') => l.Delivers g t l'' := by
      intro afterError l' passes
      have fewer := passes.remaining_lt
      refine (ih passes.faithful (by omega)).mono fun (t, l'') delivers => ?_
      obtain ⟨leads, known, _, behind, before, inside⟩ := delivers
      exact ⟨passes.toLeads.trans leads, known, fun _ => passes.trans_leads leads,
        Nat.le_trans passes.pos behind, before, inside⟩
    unfold nextFrom
    dsimp only
    refine (Cursor.yields_head faithful).bind fun head read => ?_
    split
    · exact .pure ⟨⟨faithful, rfl, Nat.le_refl _⟩, sound.tokens, nofun, Nat.le_refl _, Nat.le_refl _,
        nofun⟩
    · next going =>
      have inside : (l.cursor.reader.source.readAt l.cursor.pos).isEnd = false := by
        rw [← read]
        simpa using going
      refine (yields_scan sound.lexer sound.lexer_root faithful).bind ?_
      rintro ⟨found, l₁⟩ ⟨peeked, long⟩
      have same := leads_of_peeked peeked
      have inside₁ : (l₁.cursor.reader.source.readAt l₁.cursor.pos).isEnd = false := by
        rwa [peeked.1.source, peeked.1.pos]
      cases found with
      | none =>
        -- The report of an unexpected character changes nothing about the place.
        generalize stuck : (if l₁.stuck then l₁ else { l₁.diagnose l.origin .unexpectedChar
          [describe head.code] with stuck := true }) = l₂
        have cursor : l₂.cursor = l₁.cursor := by
          rw [← stuck]
          split <;> rfl
        rw [← cursor] at inside₁ peeked
        refine (yields_consume peeked.2 inside₁ Nat.one_pos).bind fun l₃ passes => ?_
        exact next ((leads_of_peeked peeked).trans_passes passes)
      | some m =>
        obtain ⟨pos, s, mem, recognized⟩ := long m rfl
        have consumes := yields_consume (l := { l₁ with stuck := false }) peeked.2 inside₁ pos
        refine Yields.bind consumes ?_
        intro l₂ passes
        have before : l.Leads { l₁ with stuck := false } := same.congr rfl
        have passes := before.trans_passes passes
        split
        · split
          · exact next passes
          · next info there =>
            split
            · refine .pure ⟨passes.toLeads.congr rfl, ?_, fun _ => passes.congr rfl,
                Nat.le_refl _, passes.pos, fun _ => passes.pos_lt⟩
              exact (Array.getElem?_eq_some_iff.1 there).1
            · exact next passes
        · next start =>
          have comments := sound.comments_root s mem (recognized.trans start)
          refine (yields_skipComment sound comments passes.faithful Nat.one_pos
            (Nat.lt_succ_self _)).bind fun l₃ leads => ?_
          exact next (passes.trans_leads leads)
        · exact next (passes.congr rfl)
        · exact next passes
        · exact next passes

/-- The next token, from every place of every source. -/
theorem yields_next (sound : g.Sound) (faithful : l.cursor.Faithful) :
    Yields (l.next g) fun (t, l') => l.Delivers g t l' :=
  yields_nextFrom sound faithful (Nat.lt_succ_self _)

theorem yields_tokensFrom (sound : g.Sound) (faithful : l.cursor.Faithful) {n : Nat}
    (enough : l.cursor.remaining < n) : Yields (tokensFrom g n l) fun _ => True := by
  induction n generalizing l with
  | zero => omega
  | succ n ih =>
    refine (yields_next sound faithful).bind fun (t, l₁) delivers => ?_
    dsimp only
    split
    · exact .pure trivial
    · next going =>
      have fewer := (delivers.passes (Bool.not_eq_true _ ▸ going)).remaining_lt
      exact (ih delivers.leads.faithful (by omega)).bind fun _ _ => .pure trivial

/-- All tokens, from every place of every source. -/
theorem yields_tokens (sound : g.Sound) (faithful : l.cursor.Faithful) :
    Yields (l.tokens g) fun _ => True :=
  (yields_tokensFrom sound faithful (Nat.lt_succ_self _)).bind fun _ _ => .pure trivial

end GrammarMachine.Lexer
