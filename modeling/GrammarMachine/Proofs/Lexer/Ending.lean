import GrammarMachine.Proofs.Lexer.Memoryless
import GrammarMachine.Proofs.Lexer.Sessions
import GrammarMachine.Samples.Keyword

/-!
The end of the text. It is a terminal, and lexical states may recognize that terminal too: where
none of them does, a token that ends the text has nothing of it behind, the calls that follow repeat
it and change nothing, and the tokens up to it are all that the text holds. Where one does, it ends
the tokens in the middle of the text.
-/

namespace GrammarMachine

/-- No match is delivered as the end of text. -/
def Grammar.ReservesEnd (g : Grammar) : Prop :=
  ∀ s ∈ g.lexer.states, s.recognized = .token endOfText →
    ∀ info, g.token? endOfText = some info → info.significant = false

namespace Lexer

/-- What further calls, and the taking of diagnostics in between, make of `l`. -/
inductive Later (g : Grammar) (l : Lexer) : Lexer → Prop
  | refl : Later g l l
  | next {m m' : Lexer} {t : Token} (later : Later g l m) (delivers : m.next g = .ok (t, m')) :
      Later g l m'
  | take {m : Lexer} (later : Later g l m) : Later g l m.takeDiagnostics.2

variable {g : Grammar} {l l' m last : Lexer} {t : Token} {afterError : Bool}

/-- A turn at the end of the text is the last one, and leaves the lexer as it is. -/
theorem next_of_ended (faithful : l.cursor.Faithful) (ended : (l.cursor.ahead 0).isEnd = true) :
    l.next g = .ok (⟨endOfText, none, l.origin, false⟩, l) := by
  obtain ⟨_, looked, rfl⟩ := Cursor.yields_head faithful
  rw [Lexer.next, turns, nextFrom, looked, ok_bind]
  exact if_pos ended

/-- A call that delivers the end of text has come to it, unless a match is delivered as such. -/
theorem ended_of_call (sound : g.Sound) (reserved : g.ReservesEnd) (faithful : l.cursor.Faithful)
    {stretches : List Stretch} (call : Call g afterError l stretches t l')
    (ends : t.isEnd = true) : (l'.cursor.ahead 0).isEnd = true ∧ t.origin = l'.origin := by
  induction call with
  | @ended afterError l t returns =>
    have turn := (yields_step sound faithful _).holds returns
    cases turn with
    | ended ended => exact ⟨ended, rfl⟩
  | @token afterError l next t takes =>
    have turn := (yields_step sound faithful _).holds takes
    cases turn with
    | matched _ munches _ _ sorts =>
      obtain ⟨⟨⟨_, s, _, here, recognizes⟩, _⟩, _⟩ := munches.1
      cases sorts with
      | @token id info recognized known significant =>
        obtain rfl : id = endOfText := eq_of_beq ends
        have dropped := reserved s (Array.mem_of_getElem? here) (recognizes.trans recognized) info
          known
        rw [significant] at dropped
        cases dropped
  | @passes afterError l next _ _ _ _ takes _ _ ih =>
    have turn := (yields_step sound faithful _).holds takes
    exact ih (passes_of_takes sound turn).faithful ends

/-- From the end of the text a lexer does not move, and delivers nothing that counts. -/
theorem Later.stays (later : l.Later g m) (faithful : l.cursor.Faithful)
    (ended : (l.cursor.ahead 0).isEnd = true) :
    m.cursor = l.cursor ∧ m.tokenCount = l.tokenCount := by
  induction later with
  | refl => exact ⟨rfl, rfl⟩
  | next _ delivers ih =>
    obtain ⟨cursor, count⟩ := ih
    rw [← cursor] at faithful ended
    rw [next_of_ended faithful ended] at delivers
    cases delivers
    exact ⟨cursor, count⟩
  | take _ ih => exact ih

/-- All tokens up to the end of text are those that the calls deliver up to it. -/
theorem nextMany_of_tokensFrom {n : Nat} {us : List Token}
    (delivered : tokensFrom g n l = .ok (us, last)) :
    ∃ m t, l.nextMany g us.length = .ok (us, m) ∧ m.next g = .ok (t, last) ∧ t.isEnd = true ∧
      ∀ u ∈ us, u.isEnd = false := by
  induction n generalizing l us with
  | zero => cases delivered
  | succ n ih =>
    obtain ⟨⟨t, l'⟩, first, rest⟩ := bind_eq_ok_iff.1 delivered
    dsimp only at rest
    split at rest
    · next ended =>
      cases rest
      exact ⟨l, t, rfl, first, ended, nofun⟩
    · next going =>
      obtain ⟨⟨others, _⟩, later, same⟩ := bind_eq_ok_iff.1 rest
      cases same
      obtain ⟨m, t', many, next, ended, inside⟩ := ih later
      refine ⟨m, t', ?_, next, ended, List.forall_mem_cons.2 ⟨by simpa using going, inside⟩⟩
      rw [List.length_cons, nextMany, first, ok_bind]
      dsimp only
      rw [many]
      rfl

theorem Session.nextMany {source : Source} {ts us : List Token} {ds : List Diagnostic} {n : Nat}
    (session : Session g source ts ds l) (many : l.nextMany g n = .ok (us, m)) :
    Session g source (ts ++ us) ds m := by
  induction n generalizing l ts us with
  | zero =>
    cases many
    rwa [List.append_nil]
  | succ n ih =>
    obtain ⟨⟨t, l'⟩, first, rest⟩ := bind_eq_ok_iff.1 many
    obtain ⟨⟨others, _⟩, later, same⟩ := bind_eq_ok_iff.1 rest
    cases same
    simpa using ih (session.next first) later

/-- Where a session delivers the end of text, the text has ended and stays ended. -/
theorem Session.final {source : Source} {ts : List Token} {ds : List Diagnostic} (sound : g.Sound)
    (reserved : g.ReservesEnd) (session : Session g source ts ds l)
    (delivers : l.next g = .ok (t, l')) (ends : t.isEnd = true) :
    (source.readAt t.origin.pos).isEnd = true ∧ t.origin = l'.origin ∧
      ∀ m, l'.Later g m → m.next g = .ok (⟨endOfText, none, t.origin, false⟩, m) ∧
        m.tokenCount = l'.tokenCount := by
  obtain ⟨_, call⟩ := call_of_nextFrom delivers
  obtain ⟨ended, place⟩ :=
    ended_of_call sound reserved (session.stands sound).faithful call ends
  obtain ⟨faithful, same⟩ := (session.next delivers).stands sound
  refine ⟨?_, place, fun m later => ?_⟩
  · rw [place, ← same]
    exact ended
  · obtain ⟨cursor, count⟩ := later.stays faithful ended
    rw [← cursor] at faithful ended
    rw [next_of_ended faithful ended, place, Lexer.origin, Lexer.origin, cursor]
    exact ⟨rfl, count⟩

end Lexer

open Lexer

/-- The end of text is final, in a checked grammar whose lexer leaves that terminal alone. Wherever
a session delivers it the text has ended, and every later call repeats it in the same place and
changes nothing: no diagnostic is added and no token counted. All tokens of the rest of a text are
those delivered one by one up to its end, so that nothing in front of the end is dropped. -/
theorem end_of_text_is_final {g : Grammar} (valid : g.check = .ok ()) (reserved : g.ReservesEnd)
    {source : Source} {ts : List Token} {ds : List Diagnostic} {l : Lexer}
    (session : Session g source ts ds l) :
    (∀ t l', l.next g = .ok (t, l') → t.isEnd = true →
      (source.readAt t.origin.pos).isEnd = true ∧ t.origin = l'.origin ∧
      ∀ m, l'.Later g m → m.next g = .ok (⟨endOfText, none, t.origin, false⟩, m) ∧
        m.tokenCount = l'.tokenCount) ∧
    ∃ us m t last, l.nextMany g us.length = .ok (us, m) ∧ m.next g = .ok (t, last) ∧
      (∀ u ∈ us, u.isEnd = false) ∧ t.isEnd = true ∧
      (source.readAt t.origin.pos).isEnd = true ∧
      l.tokens g = .ok (us, last.diagnostics.toList) := by
  have sound := Grammar.sound_of_check valid
  refine ⟨fun t l' delivers ends => session.final sound reserved delivers ends, ?_⟩
  obtain ⟨⟨us, last⟩, delivered, _⟩ :=
    yields_tokensFrom sound (session.stands sound).faithful (Nat.lt_succ_self _)
  obtain ⟨m, t, many, delivers, ends, inside⟩ := nextMany_of_tokensFrom delivered
  have final := (session.nextMany many).final sound reserved delivers ends
  refine ⟨us, m, t, last, many, delivers, inside, ends, final.1, ?_⟩
  rw [tokens, turns, delivered]
  rfl

/-- A keyword and its bracket, behind which the end comes and stays. -/
theorem keyword_text_ends_for_good :
    Samples.Keyword.grammar.check = .ok () ∧ Samples.Keyword.grammar.ReservesEnd ∧
    ∃ us m t last, (Lexer.start (.ofText "if( " false)).nextMany Samples.Keyword.grammar us.length =
      .ok (us, m) ∧ us.map Token.id = [Samples.Keyword.keyword, Samples.Keyword.openParen] ∧
      m.next Samples.Keyword.grammar = .ok (t, last) ∧ t.isEnd = true ∧
      ∀ m, last.Later Samples.Keyword.grammar m →
        m.next Samples.Keyword.grammar = .ok (⟨endOfText, none, t.origin, false⟩, m) := by
  have valid : Samples.Keyword.grammar.check = .ok () := eq_ok_of_toOption (by decide +kernel)
  have reserved : Samples.Keyword.grammar.ReservesEnd := by
    have other : ∀ s ∈ Samples.Keyword.grammar.lexer.states, s.recognized ≠ .token endOfText := by
      decide +kernel
    exact fun s mem recognized => absurd recognized (other s mem)
  have read : ((Lexer.start (.ofText "if( " false)).tokens Samples.Keyword.grammar).toOption.map
      (fun r => r.1.map Token.id) = some [Samples.Keyword.keyword, Samples.Keyword.openParen] := by
    decide +kernel
  have fresh : Session Samples.Keyword.grammar (.ofText "if( " false) [] [] _ := .start
  obtain ⟨us, m, t, last, many, delivers, _, ends, _, all⟩ :=
    (end_of_text_is_final valid reserved fresh).2
  rw [all] at read
  obtain ⟨_, _, final⟩ :=
    (end_of_text_is_final valid reserved (fresh.nextMany many)).1 t last delivers ends
  exact ⟨valid, reserved, us, m, t, last, many, Option.some.inj read, delivers, ends,
    fun m later => (final m later).1⟩

/-- A grammar in which the letter `a` is recognized as the end of text, and `b` as a terminal of its
own. -/
def Samples.earlyEnd : Grammar where
  tokens := #[⟨some "end of text", true, false⟩, ⟨some "'b'", true, false⟩]
  lexer :=
    { states := #[
        .ofRanges .nothing [] [('a', 'a', 1), ('b', 'b', 2)],
        .ofRanges (.token endOfText) [] [],
        .ofRanges (.token 1) [] []]
      maxDepth := 0 }
  comments := .empty
  states := #[.ofActions []]
  nonterminals := #[]
  rules := #[]
  recoveries := []

/-- The checks let the end of text be recognized in the middle of a text. The call behind it
delivers another token and counts it, and all tokens of the text are none. -/
theorem early_end_is_not_final : Samples.earlyEnd.check = .ok () ∧ ¬Samples.earlyEnd.ReservesEnd ∧
    (∃ t l u l', (Lexer.start (.ofText "ab" false)).next Samples.earlyEnd = .ok (t, l) ∧
      t.isEnd = true ∧ ((Source.ofText "ab" false).readAt l.origin.pos).isEnd = false ∧
      l.next Samples.earlyEnd = .ok (u, l') ∧ u.isEnd = false ∧
      l'.tokenCount = l.tokenCount + 1) ∧
    (Lexer.start (.ofText "ab" false)).tokens Samples.earlyEnd = .ok ([], []) := by
  have valid : Samples.earlyEnd.check = .ok () := eq_ok_of_toOption (by decide +kernel)
  have delivered : (do
      let first ← (Lexer.start (.ofText "ab" false)).next Samples.earlyEnd
      let second ← first.2.next Samples.earlyEnd
      return (first.1.isEnd, ((Source.ofText "ab" false).readAt first.2.origin.pos).isEnd,
        second.1.isEnd, decide (second.2.tokenCount = first.2.tokenCount + 1))).toOption =
          some (true, false, false, true) := by
    decide +kernel
  obtain ⟨⟨t, l⟩, first, rest⟩ := bind_eq_ok_iff.1 (eq_ok_of_toOption delivered)
  obtain ⟨⟨u, l'⟩, second, same⟩ := bind_eq_ok_iff.1 rest
  simp only [pure, Except.pure, Except.ok.injEq, Prod.mk.injEq, decide_eq_true_eq] at same
  obtain ⟨ends, going, other, counted⟩ := same
  refine ⟨valid, ?_, ⟨t, l, u, l', first, ends, going, second, other, counted⟩,
    eq_ok_of_toOption (by decide +kernel)⟩
  intro reserved
  have dropped := reserved (.ofRanges (.token endOfText) [] []) (by decide +kernel) rfl
    ⟨some "end of text", true, false⟩ rfl
  cases dropped

end GrammarMachine
