import GrammarMachine.Proofs.Lexer.Spelling
import GrammarMachine.Proofs.Lexer.Steps

/-!
What a turn of the lexer can do, from every place of every source. It finds the text at its end, or
it takes off the longest match that is not empty, or a single character if there is none; within a
comment it moves on or leaves. Whatever the turns do, the cursor moves by consuming characters.
-/

namespace GrammarMachine

namespace Cursor

variable {c c' d : Cursor} {n : Nat}

/-- Consuming `n` characters, whatever has been read ahead. -/
def Consumes (n : Nat) (c c' : Cursor) : Prop :=
  ∃ d, c.Peeked d ∧ d.consume n = .ok c'

/-- In front of a character, consuming moves on along the source. -/
theorem yields_consumes (peeked : c.Peeked d) (going : (c.ahead 0).isEnd = false) (n : Nat) :
    Yields (d.consume n) fun c' => c.Consumes n c' ∧ c'.Faithful ∧
      c'.reader.source = c.reader.source ∧ c'.pos = c.reader.source.reach c.pos n := by
  have bound := Source.add_lt_stop going
  obtain ⟨agrees, faithful⟩ := peeked
  have inside : d.pos ≤ d.reader.source.stop := by
    rw [agrees.pos, agrees.source]
    omega
  obtain ⟨c', consumed, faithful', source, pos⟩ := yields_consume faithful inside n
  rw [agrees.source] at source pos
  rw [agrees.pos] at pos
  exact ⟨c', consumed, ⟨d, ⟨agrees, faithful⟩, consumed⟩, faithful', source, pos⟩

theorem Consumes.along (consumes : c.Consumes n c') (going : (c.ahead 0).isEnd = false) :
    c'.Faithful ∧ c'.reader.source = c.reader.source ∧ c'.pos = c.reader.source.reach c.pos n := by
  obtain ⟨d, peeked, consumed⟩ := consumes
  exact ((yields_consumes peeked going n).holds consumed).2

end Cursor

namespace Lexer

variable {g : Grammar} {l l' : Lexer} {afterError : Bool}

/-- The report of a character that nothing matches, unless it stands in a run of them. -/
def tellUnexpected (l : Lexer) : Lexer :=
  if l.stuck then l
  else { l.diagnose l.origin .unexpectedChar [describe (l.cursor.ahead 0).code] with stuck := true }

/-- What becomes of the match `m` at the place of `l`, which `l₁` stands behind. -/
inductive Sorts (g : Grammar) (afterError : Bool) (l : Lexer) (m : Match) (l₁ : Lexer) :
    Piece → Lexer → Prop
  | token {id : UInt32} {info : TokenInfo} (recognized : m.recognized = .token id)
      (known : g.token? id = some info) (significant : info.significant = true) :
      Sorts g afterError l m l₁
        (.token ⟨id, if info.carriesValue then some (.ofList (l.cursor.letters m.length)) else none,
          l.origin, afterError⟩)
        { l₁ with tokenCount := l₁.tokenCount + 1 }
  | blank {id : UInt32} (recognized : m.recognized = .token id)
      (dropped : ∀ info, g.token? id = some info → info.significant = false) :
      Sorts g afterError l m l₁ .blank l₁
  | comment {l' : Lexer} (recognized : m.recognized = .commentStart)
      (skipped : skipComment g l.origin l₁.turns 1 l₁ = .ok l') :
      Sorts g afterError l m l₁ .comment l'
  | strayEnd (recognized : m.recognized = .commentEnd) :
      Sorts g afterError l m l₁ .strayEnd (l₁.diagnose l.origin .unexpectedCommentEnd [])

/-- All that a turn of the lexer can do. -/
inductive Takes (g : Grammar) (afterError : Bool) (l : Lexer) : Step → Prop
  | ended (ended : (l.cursor.ahead 0).isEnd = true) :
      Takes g afterError l (.ended ⟨endOfText, none, l.origin, afterError⟩)
  | unmatched {c : Cursor} (going : (l.cursor.ahead 0).isEnd = false)
      (nothing : ∀ m, g.lexer.Munches l.cursor.code 0 m → m.length = 0)
      (consumes : l.cursor.Consumes 1 c) :
      Takes g afterError l (.takes .unmatched { l.tellUnexpected with cursor := c })
  | matched {m : Match} {c : Cursor} {piece : Piece} {next : Lexer}
      (going : (l.cursor.ahead 0).isEnd = false) (munches : g.lexer.Munches l.cursor.code 0 m)
      (long : 0 < m.length) (consumes : l.cursor.Consumes m.length c)
      (sorts : Sorts g afterError l m { l with cursor := c, stuck := false } piece next) :
      Takes g afterError l (.takes piece next)

/-- A scan looks ahead, and answers with the longest match if that is not empty. -/
theorem yields_scan_munch {a : Automaton} (closed : a.Closed) (root : 0 < a.states.size)
    (faithful : l.cursor.Faithful) :
    Yields (l.scan a) fun (found, l₁) => ∃ d, l₁ = { l with cursor := d } ∧ l.cursor.Peeked d ∧
      (found = none → ∀ m, a.Munches l.cursor.code 0 m → m.length = 0) ∧
      ∀ m, found = some m → 0 < m.length ∧ a.Munches l.cursor.code 0 m ∧
        d.text m.length = .ofList (l.cursor.letters m.length) := by
  have inside : (0 : UInt32).toNat < a.states.size := root
  obtain ⟨⟨found, d⟩, result, peeked, answers⟩ :=
    Automaton.ends_longestMatch closed inside faithful
  dsimp only at result peeked answers
  refine .bind_ok result (.pure ⟨d, rfl, peeked, fun none m munches => ?_, fun m same => ?_⟩)
  · have whole := (answers.found m).2 munches
    rw [whole, Option.filter_eq_none_iff] at none
    simpa using none
  · obtain ⟨rfl, long⟩ := Option.filter_eq_some_iff.1 same
    refine ⟨of_decide_eq_true long, (answers.found m).1 rfl, ?_⟩
    rw [Cursor.text_eq peeked.2 (Automaton.seen_longestMatch result),
      Cursor.ahead_of_agrees peeked.1]
    rfl

/-- Consuming changes nothing but the cursor. -/
theorem yields_consumes {d : Cursor} (peeked : l.cursor.Peeked d)
    (going : (l.cursor.ahead 0).isEnd = false) (n : Nat) :
    Yields (({ l with cursor := d } : Lexer).consume n) fun l' => ∃ c,
      l' = { l with cursor := c } ∧ l.cursor.Consumes n c :=
  (Cursor.yields_consumes peeked going n).bind fun c along => .pure ⟨c, rfl, along.1⟩

@[simp] theorem cursor_tellUnexpected (l : Lexer) : l.tellUnexpected.cursor = l.cursor := by
  unfold tellUnexpected
  split <;> rfl

/-- Behind some characters consumed, a lexer has passed them. -/
theorem passes_of_consumes {n : Nat} {c : Cursor} (consumes : l.cursor.Consumes n c)
    (going : (l.cursor.ahead 0).isEnd = false) (long : 0 < n) (same : l'.cursor = c) :
    l.Passes l' := by
  obtain ⟨faithful, source, pos⟩ := consumes.along going
  subst same
  have further : l.cursor.pos < l'.cursor.pos := by
    rw [pos]
    exact Source.lt_reach going long
  have bound := Source.add_lt_stop (i := 0) going
  refine ⟨⟨faithful, source, Nat.le_of_lt further⟩, further, ?_⟩
  unfold Cursor.remaining
  rw [source]
  omega

/-- A grammar that marks comments has an automaton for them. -/
theorem comments_of_munches (sound : g.Sound) {code : Nat → Int32} {root : UInt32} {m : Match}
    (munches : g.lexer.Munches code root m) (opens : m.recognized = .commentStart) :
    0 < g.comments.states.size := by
  obtain ⟨⟨⟨⟨_, s, _, here, recognizes⟩, _⟩, _⟩, _⟩ := munches
  exact sound.comments_root s (Array.mem_of_getElem? here) (recognizes.trans opens)

theorem yields_step (sound : g.Sound) (faithful : l.cursor.Faithful) (afterError : Bool) :
    Yields (step g afterError l) (Takes g afterError l) := by
  unfold step
  dsimp only
  refine (Cursor.yields_head faithful).bind fun head read => ?_
  obtain rfl : head = l.cursor.ahead 0 := read
  split
  · next ended => exact .pure (.ended ended)
  · next other =>
    have going : (l.cursor.ahead 0).isEnd = false := Bool.not_eq_true _ ▸ other
    refine (yields_scan_munch sound.lexer sound.lexer_root faithful).bind ?_
    rintro ⟨found, _⟩ ⟨d, rfl, peeked, nothing, munched⟩
    cases found with
    | none =>
      dsimp only
      have told : (if l.stuck then { l with cursor := d } else
          { ({ l with cursor := d } : Lexer).diagnose l.origin .unexpectedChar
            [describe (l.cursor.ahead 0).code] with stuck := true }) =
          { l.tellUnexpected with cursor := d } := by
        unfold tellUnexpected
        split <;> rfl
      rw [told]
      rw [← cursor_tellUnexpected l] at peeked going
      refine (yields_consumes peeked going 1).bind ?_
      rintro _ ⟨c, rfl, consumes⟩
      rw [cursor_tellUnexpected] at going consumes
      exact .pure (.unmatched going (nothing rfl) consumes)
    | some m =>
      obtain ⟨long, munches, text⟩ := munched m rfl
      dsimp only
      rw [text]
      have freed : Yields (({ l with cursor := d, stuck := false } : Lexer).consume m.length) _ :=
        yields_consumes (l := { l with stuck := false }) peeked going m.length
      refine freed.bind ?_
      rintro _ ⟨c, rfl, consumes⟩
      have takes : ∀ {piece next},
          Sorts g afterError l m { l with cursor := c, stuck := false } piece next →
          Takes g afterError l (.takes piece next) := .matched going munches long consumes
      obtain ⟨_, priority⟩ := munches.1.1.2
      cases recognized : m.recognized with
      | token id =>
        dsimp only
        cases known : g.token? id with
        | none => exact .pure (takes (.blank recognized (by simp [known])))
        | some info =>
          dsimp only
          split
          · next significant => exact .pure (takes (.token recognized known significant))
          · next other =>
            refine .pure (takes (.blank recognized ?_))
            rintro info' same
            cases known.symm.trans same
            exact Bool.not_eq_true _ ▸ other
      | commentStart =>
        have root := comments_of_munches sound munches recognized
        have passes : l.Passes { l with cursor := c, stuck := false } :=
          passes_of_consumes consumes going long rfl
        have skips : Yields (skipComment g l.origin _ 1 _) _ :=
          yields_skipComment sound root passes.faithful Nat.one_pos (Nat.lt_succ_self _)
        obtain ⟨l', skipped, _⟩ := skips
        exact .bind_ok skipped (.pure (takes (.comment recognized skipped)))
      | commentEnd => exact .pure (takes (.strayEnd recognized))
      | nothing =>
        rw [recognized] at priority
        cases priority
      | followAccept =>
        rw [recognized] at priority
        cases priority

/-- All that a turn within a comment can do. -/
inductive Skips (start : Origin) (l : Lexer) : CommentStep → Prop
  | ended (ended : (l.cursor.ahead 0).isEnd = true) :
      Skips start l (.leaves (l.diagnose start .unterminatedComment []))
  | closes {n : Nat} {c : Cursor} (going : (l.cursor.ahead 0).isEnd = false) (long : 0 < n)
      (consumes : l.cursor.Consumes n c) : Skips start l (.leaves { l with cursor := c })
  | breaks {n : Nat} {c : Cursor} (going : (l.cursor.ahead 0).isEnd = false) (long : 0 < n)
      (consumes : l.cursor.Consumes n c) :
      Skips start l (.leaves ({ l with cursor := c }.diagnose start .unterminatedComment []))
  | stays {n nesting : Nat} {c : Cursor} (going : (l.cursor.ahead 0).isEnd = false) (long : 0 < n)
      (consumes : l.cursor.Consumes n c) (nested : 0 < nesting) :
      Skips start l (.stays nesting { l with cursor := c })

theorem yields_commentStep (sound : g.Sound) (root : 0 < g.comments.states.size)
    (faithful : l.cursor.Faithful) (start : Origin) {nesting : Nat} (nested : 0 < nesting) :
    Yields (commentStep g start nesting l) (Skips start l) := by
  unfold commentStep
  refine (Cursor.yields_atEnd faithful).bind fun ended read => ?_
  subst read
  split
  · next ended => exact .pure (.ended ended)
  · next other =>
    have going : (l.cursor.ahead 0).isEnd = false := Bool.not_eq_true _ ▸ other
    refine (yields_scan_munch sound.comments root faithful).bind ?_
    rintro ⟨found, _⟩ ⟨d, rfl, peeked, _, munched⟩
    cases found with
    | none =>
      refine (yields_consumes peeked going 1).bind ?_
      rintro _ ⟨c, rfl, consumes⟩
      exact .pure (.stays going Nat.one_pos consumes nested)
    | some m =>
      have long := (munched m rfl).1
      refine (yields_consumes peeked going m.length).bind ?_
      rintro _ ⟨c, rfl, consumes⟩
      have stays : Skips start l (.stays nesting { l with cursor := c }) :=
        .stays going long consumes nested
      cases m.recognized with
      | token id =>
        dsimp only
        split
        · exact .pure (.stays going long consumes (Nat.succ_pos _))
        split
        · match nesting with
          | 0 => omega
          | 1 => exact .pure (.closes going long consumes)
          | nesting + 2 => exact .pure (.stays going long consumes (Nat.succ_pos _))
        split
        · exact .pure (.breaks going long consumes)
        · exact .pure stays
      | nothing => exact .pure stays
      | commentStart => exact .pure stays
      | commentEnd => exact .pure stays
      | followAccept => exact .pure stays

end Lexer

/-- One cursor after the other, by consuming characters. -/
abbrev Cursor.Moves : Cursor → Cursor → Prop :=
  Relation.ReflTransGen fun c c' => (c.ahead 0).isEnd = false ∧ ∃ n, 0 < n ∧ c.Consumes n c'

theorem Cursor.Moves.along {c c' : Cursor} (moves : c.Moves c') (faithful : c.Faithful) :
    c'.Faithful ∧ c'.reader.source = c.reader.source := by
  induction moves with
  | refl => exact ⟨faithful, rfl⟩
  | tail _ move ih =>
    obtain ⟨going, n, _, consumes⟩ := move
    obtain ⟨faithful', source, _⟩ := consumes.along going
    exact ⟨faithful', source.trans ih.2⟩

namespace Lexer

/-- A comment moves the cursor, and is reported at its start if it does not close. -/
theorem moves_skipComment (sound : g.Sound) (root : 0 < g.comments.states.size)
    (faithful : l.cursor.Faithful) {start : Origin} {n nesting : Nat} (nested : 0 < nesting)
    (skipped : skipComment g start n nesting l = .ok l') :
    ∃ c, l.cursor.Moves c ∧ (l' = { l with cursor := c } ∨
      l' = { l with cursor := c }.diagnose start .unterminatedComment []) := by
  induction n generalizing nesting l with
  | zero => cases skipped
  | succ n ih =>
    rw [skipComment_succ] at skipped
    obtain ⟨_, turned, skips⟩ := yields_commentStep sound root faithful start nested
    rw [turned, ok_bind] at skipped
    cases skips with
    | ended =>
      cases skipped
      exact ⟨l.cursor, .refl, .inr rfl⟩
    | closes going long consumes =>
      cases skipped
      exact ⟨_, .single ⟨going, _, long, consumes⟩, .inl rfl⟩
    | breaks going long consumes =>
      cases skipped
      exact ⟨_, .single ⟨going, _, long, consumes⟩, .inr rfl⟩
    | stays going long consumes nested =>
      have along := consumes.along going
      obtain ⟨c, moves, shape⟩ := ih (l := { l with cursor := _ }) along.1 nested skipped
      exact ⟨c, .head ⟨going, _, long, consumes⟩ moves, shape⟩

end Lexer

end GrammarMachine
