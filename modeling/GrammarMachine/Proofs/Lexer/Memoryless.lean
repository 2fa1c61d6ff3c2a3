import GrammarMachine.Proofs.Lexer.Ahead
import GrammarMachine.Proofs.Lexer.Progress
import GrammarMachine.Samples.Keyword
import Mathlib.Data.List.Forall2

/-!
Lexing has no memory. Two lexers in front of the same characters, in places of their own, deliver
the same tokens and report the same errors at places as far apart; what was read before, in which
window and at which place, makes no difference. Behind a token a lexer is in front of the rest of
its text, and so goes on like one that starts there.
-/

namespace GrammarMachine

/-- The same token, `shift` units further on. -/
structure Token.Shifted (shift : Nat) (t t' : Token) : Prop where
  id : t.id = t'.id
  text : t.text = t'.text
  error : t.error = t'.error
  pos : t.origin.pos = t'.origin.pos + shift

/-- The same error, `shift` units further on. -/
structure Diagnostic.Shifted (shift : Nat) (d d' : Diagnostic) : Prop where
  message : d.message = d'.message
  pos : d.origin.pos = d'.origin.pos + shift

namespace Cursor

variable {c c' d d' : Cursor} {shift : Nat}

/-- The cursor shows its source, and came to its place by consuming characters. -/
structure Placed (c : Cursor) : Prop where
  faithful : c.Faithful
  reached : ∃ n, c.pos = c.reader.source.reach c.reader.source.start n

theorem placed_start (source : Source) : (Cursor.start source).Placed :=
  ⟨faithful_start source, 0, rfl⟩

theorem Placed.peeked (placed : c.Placed) (peeked : c.Peeked d) : d.Placed := by
  obtain ⟨n, reached⟩ := placed.reached
  exact ⟨peeked.2, n, by rw [peeked.1.pos, peeked.1.source, reached]⟩

theorem code_eq (c : Cursor) : c.code = fun i => (c.ahead i).code := rfl

/-- In front of a character, consuming moves on by as many as are asked for. -/
theorem Placed.consume (placed : c.Placed) (going : (c.ahead 0).isEnd = false) (n : Nat) :
    Yields (c.consume n) fun d => d.Placed ∧ d.pos = c.reader.source.reach c.pos n ∧
      d.ahead = fun i => c.ahead (n + i) := by
  have bound := Source.add_lt_stop going
  refine (yields_consume placed.faithful (by omega) n).mono fun d ⟨faithful, source, pos⟩ => ?_
  obtain ⟨k, reached⟩ := placed.reached
  refine ⟨⟨faithful, k + n, ?_⟩, pos, ?_⟩
  · rw [source, pos, reached, Source.reach_add]
  · funext i
    rw [ahead, ahead, source, pos, Source.reach_add]

/-- Both cursors are in front of the same characters, the first one `shift` units further on. -/
structure Beside (shift : Nat) (c c' : Cursor) : Prop where
  placed : c.Placed
  placed' : c'.Placed
  ahead : c.ahead = c'.ahead
  pos : c.pos = c'.pos + shift

theorem Beside.peeked (beside : c.Beside shift c') (first : c.Peeked d) (second : c'.Peeked d') :
    d.Beside shift d' where
  placed := beside.placed.peeked first
  placed' := beside.placed'.peeked second
  ahead := by rw [ahead_of_agrees first.1, ahead_of_agrees second.1, beside.ahead]
  pos := by rw [first.1.pos, second.1.pos, beside.pos]

theorem Beside.reach (beside : c.Beside shift c') (n : Nat) :
    c.reader.source.reach c.pos n = c'.reader.source.reach c'.pos n + shift := by
  induction n with
  | zero => exact beside.pos
  | succ n ih =>
    have same : c.ahead n = c'.ahead n := congrFun beside.ahead n
    unfold Cursor.ahead at same
    rw [Source.reach, Source.reach, same, ih]
    split <;> omega

theorem Beside.consume (beside : c.Beside shift c') (going : (c.ahead 0).isEnd = false) (n : Nat) :
    Matches (Beside shift) (c.consume n) (c'.consume n) := by
  intro d d' first second
  obtain ⟨_, at_d, placed, pos, ahead⟩ := beside.placed.consume going n
  cases first.symm.trans at_d
  obtain ⟨_, at_d', placed', pos', ahead'⟩ := beside.placed'.consume (beside.ahead ▸ going) n
  cases second.symm.trans at_d'
  refine ⟨placed, placed', ?_, ?_⟩
  · rw [ahead, ahead', beside.ahead]
  · rw [pos, pos', beside.reach]

end Cursor

namespace Lexer

variable {g : Grammar} {shift : Nat} {old old' : List Diagnostic} {l l' : Lexer}

/-- Lexers side by side, with errors that correspond behind the `old` ones. -/
structure Abreast (shift : Nat) (old old' : List Diagnostic) (l l' : Lexer) : Prop where
  beside : l.cursor.Beside shift l'.cursor
  stuck : l.stuck = l'.stuck
  added : ∃ new new', l.diagnostics.toList = old ++ new ∧ l'.diagnostics.toList = old' ++ new' ∧
    List.Forall₂ (Diagnostic.Shifted shift) new new'

namespace Abreast

theorem diagnose (abreast : Abreast shift old old' l l') {o o' : Origin}
    (apart : o.pos = o'.pos + shift) (key : Key) (args : List String) :
    Abreast shift old old' (l.diagnose o key args) (l'.diagnose o' key args) := by
  obtain ⟨beside, stuck, new, new', grown, grown', corresponds⟩ := abreast
  refine ⟨beside, stuck, new ++ [⟨o, ⟨key, args⟩⟩], new' ++ [⟨o', ⟨key, args⟩⟩], ?_, ?_, ?_⟩
  · simp [Lexer.diagnose, grown]
  · simp [Lexer.diagnose, grown']
  · exact List.rel_append corresponds (.cons ⟨rfl, apart⟩ .nil)

/-- Cursors side by side may take the place of those of the lexers. -/
theorem move (abreast : Abreast shift old old' l l') {c c' : Cursor} (beside : c.Beside shift c')
    (stuck : Bool) :
    Abreast shift old old' { l with cursor := c, stuck } { l' with cursor := c', stuck } :=
  ⟨beside, rfl, abreast.added⟩

theorem scan {a : Automaton} (closed : a.Closed) (root : 0 < a.states.size)
    (abreast : Abreast shift old old' l l') :
    Matches (fun r r' => r.1 = r'.1 ∧ Abreast shift old old' r.2 r'.2 ∧
      r.2.cursor.ahead = l.cursor.ahead ∧
      ∀ m, r.1 = some m → r.2.cursor.text m.length = r'.2.cursor.text m.length ∧
        ∃ s ∈ a.states, s.recognized = m.recognized)
      (l.scan a) (l'.scan a) := by
  have inside : (0 : UInt32).toNat < a.states.size := root
  have beside := abreast.beside
  obtain ⟨⟨found, c⟩, result, peeked, answers⟩ :=
    Automaton.ends_longestMatch closed inside beside.placed.faithful
  obtain ⟨⟨found', c'⟩, result', peeked', answers'⟩ :=
    Automaton.ends_longestMatch closed inside beside.placed'.faithful
  have same : found = found' := by
    rw [Cursor.code_eq, ← beside.ahead, ← Cursor.code_eq] at answers'
    exact answers.unique answers'
  dsimp only at result result' peeked peeked'
  subst same
  rw [Lexer.scan, Lexer.scan, result, result']
  have moved := beside.peeked peeked peeked'
  refine .pure ⟨rfl, ⟨moved, abreast.stuck, abreast.added⟩, Cursor.ahead_of_agrees peeked.1, ?_⟩
  intro m filtered
  obtain ⟨rfl, _⟩ := Option.filter_eq_some_iff.1 filtered
  refine ⟨?_, answers.known rfl⟩
  rw [Cursor.text_eq peeked.2 (Automaton.seen_longestMatch result),
    Cursor.text_eq peeked'.2 (Automaton.seen_longestMatch result'), moved.ahead]

theorem consume (abreast : Abreast shift old old' l l')
    (going : (l.cursor.ahead 0).isEnd = false) (n : Nat) :
    Matches (Abreast shift old old') (l.consume n) (l'.consume n) :=
  (abreast.beside.consume going n).bind fun _ _ beside =>
    .pure ⟨beside, abreast.stuck, abreast.added⟩

theorem head (abreast : Abreast shift old old' l l') :
    l.cursor.head = .ok (l.cursor.ahead 0) ∧ l'.cursor.head = .ok (l.cursor.ahead 0) := by
  obtain ⟨_, at_l, read⟩ := Cursor.yields_head abreast.beside.placed.faithful
  obtain ⟨_, at_l', read'⟩ := Cursor.yields_head abreast.beside.placed'.faithful
  refine ⟨at_l.trans (congrArg _ read), at_l'.trans (congrArg _ (read'.trans ?_))⟩
  exact (congrFun abreast.beside.ahead 0).symm

/-- Comments are skipped side by side, however many turns either lexer has for it. -/
theorem skipComment (sound : g.Sound) (root : 0 < g.comments.states.size) {o o' : Origin}
    (apart : o.pos = o'.pos + shift) {n n' nesting : Nat} (abreast : Abreast shift old old' l l') :
    Matches (Abreast shift old old') (skipComment g o n nesting l)
      (skipComment g o' n' nesting l') := by
  induction n generalizing n' nesting l l' with
  | zero =>
    intro _ _ first
    cases first
  | succ n ih =>
    cases n' with
    | zero =>
      intro _ _ _ second
      cases second
    | succ n' =>
      have ⟨head, head'⟩ := abreast.head
      rw [Lexer.skipComment, Lexer.skipComment, Cursor.atEnd, Cursor.atEnd, head, head']
      dsimp only [ok_bind, pure, Except.pure]
      cases ended : (l.cursor.ahead 0).isEnd with
      | true => exact .pure (abreast.diagnose apart _ _)
      | false =>
        refine (abreast.scan sound.comments root).bind ?_
        rintro ⟨found, l₁⟩ ⟨_, l₁'⟩ ⟨⟨⟩, abreast, ahead, _⟩
        dsimp only at abreast ahead ⊢
        have going : (l₁.cursor.ahead 0).isEnd = false := by rw [ahead, ended]
        cases found with
        | none => exact (abreast.consume going 1).bind fun _ _ abreast => ih abreast
        | some m =>
          refine (abreast.consume going m.length).bind fun l₂ l₂' abreast => ?_
          cases m.recognized with
          | token id =>
            dsimp only
            split
            · exact ih abreast
            · split
              · match nesting with
                | 0 => exact nofun
                | 1 => exact .pure abreast
                | nesting + 2 => exact ih abreast
              · split
                · exact .pure (abreast.diagnose apart _ _)
                · exact ih abreast
          | nothing => exact ih abreast
          | commentStart => exact ih abreast
          | commentEnd => exact ih abreast
          | followAccept => exact ih abreast

/-- Tokens are delivered side by side. Behind one that does not end the text, a lexer is not within
a run of characters that nothing matches. -/
theorem nextFrom (sound : g.Sound) {n n' : Nat} {afterError : Bool}
    (abreast : Abreast shift old old' l l') :
    Matches (fun r r' => r.1.Shifted shift r'.1 ∧ Abreast shift old old' r.2 r'.2 ∧
      (r.1.isEnd = false → r.2.stuck = false))
      (nextFrom g n afterError l) (nextFrom g n' afterError l') := by
  induction n generalizing n' afterError l l' with
  | zero =>
    intro _ _ first
    cases first
  | succ n ih =>
    cases n' with
    | zero =>
      intro _ _ _ second
      cases second
    | succ n' =>
      have ⟨head, head'⟩ := abreast.head
      have apart : l.origin.pos = l'.origin.pos + shift := abreast.beside.pos
      rw [Lexer.nextFrom, Lexer.nextFrom, head, head']
      dsimp only [ok_bind]
      cases ended : (l.cursor.ahead 0).isEnd with
      | true => exact .pure ⟨⟨rfl, rfl, rfl, apart⟩, abreast, nofun⟩
      | false =>
        refine (abreast.scan sound.lexer sound.lexer_root).bind ?_
        rintro ⟨found, l₁⟩ ⟨_, l₁'⟩ ⟨⟨⟩, abreast₁, ahead, known⟩
        dsimp only at abreast₁ ahead known ⊢
        have going : (l₁.cursor.ahead 0).isEnd = false := by rw [ahead, ended]
        cases found with
        | none =>
          dsimp only
          have reported : Abreast shift old old'
              (if l₁.stuck then l₁ else { l₁.diagnose l.origin .unexpectedChar
                [describe (l.cursor.ahead 0).code] with stuck := true })
              (if l₁'.stuck then l₁' else { l₁'.diagnose l'.origin .unexpectedChar
                [describe (l.cursor.ahead 0).code] with stuck := true }) := by
            rw [← abreast₁.stuck]
            split
            · exact abreast₁
            · have told := abreast₁.diagnose apart .unexpectedChar
                [describe (l.cursor.ahead 0).code]
              exact told.move told.beside true
          have cursor : (if l₁.stuck then l₁ else { l₁.diagnose l.origin .unexpectedChar
              [describe (l.cursor.ahead 0).code] with stuck := true }).cursor = l₁.cursor := by
            split <;> rfl
          exact (reported.consume (by rw [cursor]; exact going) 1).bind
            fun _ _ abreast => ih abreast
        | some m =>
          have freed := abreast₁.move abreast₁.beside false
          obtain ⟨texts, s, mem, recognizes⟩ := known m rfl
          refine Matches.bind (R := fun l₂ l₂' => Abreast shift old old' l₂ l₂' ∧ l₂.stuck = false)
            ?_ ?_
          · intro l₂ l₂' first second
            refine ⟨freed.consume going m.length l₂ l₂' first second, ?_⟩
            obtain ⟨_, _, same⟩ := bind_eq_ok_iff.1 first
            cases same
            rfl
          rintro l₂ l₂' ⟨abreast, free⟩
          cases recognized : m.recognized with
          | token id =>
            dsimp only
            cases g.token? id with
            | none => exact ih abreast
            | some info =>
              dsimp only
              split
              · rw [texts]
                exact .pure ⟨⟨rfl, rfl, rfl, apart⟩, ⟨abreast.beside, abreast.stuck, abreast.added⟩,
                  fun _ => free⟩
              · exact ih abreast
          | commentStart =>
            have root := sound.comments_root s mem (recognizes.trans recognized)
            exact (abreast.skipComment sound root apart).bind fun _ _ abreast => ih abreast
          | commentEnd => exact ih (abreast.diagnose apart _ _)
          | nothing => exact ih abreast
          | followAccept => exact ih abreast

end Abreast

/-- The next `n` tokens. -/
def nextMany (g : Grammar) : Nat → Lexer → Except Fault (List Token × Lexer)
  | 0, l => .ok ([], l)
  | n + 1, l => do
    let (token, l) ← l.next g
    let (rest, l) ← nextMany g n l
    return (token :: rest, l)

theorem yields_nextMany (sound : g.Sound) (faithful : l.cursor.Faithful) (n : Nat) :
    Yields (l.nextMany g n) fun r => l.Leads r.2 := by
  induction n generalizing l with
  | zero => exact .ok ⟨faithful, rfl, Nat.le_refl _⟩
  | succ n ih =>
    refine (yields_next sound faithful).bind fun (t, l₁) delivers => ?_
    refine (ih delivers.leads.faithful).bind fun (ts, l₂) leads => ?_
    exact .pure (delivers.leads.trans leads)

theorem Abreast.nextMany (sound : g.Sound) (abreast : Abreast shift old old' l l') (n : Nat) :
    Matches (fun r r' => List.Forall₂ (Token.Shifted shift) r.1 r'.1 ∧
      Abreast shift old old' r.2 r'.2) (l.nextMany g n) (l'.nextMany g n) := by
  induction n generalizing l l' with
  | zero => exact .pure ⟨.nil, abreast⟩
  | succ n ih =>
    refine (abreast.nextFrom sound).bind fun (t, l₁) (t', l₁') ⟨same, abreast, _⟩ => ?_
    refine (ih abreast).bind fun (ts, l₂) (ts', l₂') ⟨others, abreast⟩ => ?_
    exact .pure ⟨.cons same others, abreast⟩

theorem abreast_self (placed : l.cursor.Placed) :
    Abreast 0 l.diagnostics.toList l.diagnostics.toList l l :=
  ⟨⟨placed, placed, rfl, rfl⟩, rfl, [], [], by simp, by simp, .nil⟩

end Lexer

namespace Source

theorem extent_ofChars (cs : List Char) :
    extent (cs.map Reading.ofChar) = (String.ofList cs).utf8ByteSize := by
  induction cs with
  | nil => rfl
  | cons c rest ih =>
    rw [List.map_cons, extent, ih, ← List.singleton_append, String.ofList_append,
      String.utf8ByteSize_append]
    simp [Reading.ofChar]

theorem lays_ofText (text : String) (null : Bool) :
    (ofText text null).Lays (.ending null) 0 (text.toList.map Reading.ofChar) :=
  lays_ofReadings 0 _ null _

end Source

/-- A cursor in a text is in front of the rest of it. -/
theorem Cursor.Placed.exists_rest {c : Cursor} (placed : c.Placed) {text : String} {null : Bool}
    (source : c.reader.source = .ofText text null) :
    ∃ x y, text = x ++ y ∧ x.utf8ByteSize = c.pos ∧
      c.ahead = (Cursor.start (.ofText y null)).ahead := by
  obtain ⟨n, reached⟩ := placed.reached
  rw [source] at reached
  have lays := Source.lays_ofText text null
  obtain ⟨k, at_k⟩ := lays.exists_reach (Reading.isEnd_ending null) n
  have pos : c.pos = 0 + Source.extent ((text.toList.map Reading.ofChar).take k) :=
    reached.trans at_k
  rw [← List.take_append_drop k (text.toList.map Reading.ofChar)] at lays
  have behind := lays.behind
  rw [← pos, ← List.map_drop] at behind
  refine ⟨.ofList (text.toList.take k), .ofList (text.toList.drop k), ?_, ?_, ?_⟩
  · rw [← String.ofList_append, List.take_append_drop, String.ofList_toList]
  · rw [pos, Nat.zero_add, ← List.map_take, Source.extent_ofChars]
  · funext i
    have first := behind.readAt_reach (Reading.isEnd_ending null) i
    have second := (Source.lays_ofText (.ofList (text.toList.drop k)) null).readAt_reach
      (Reading.isEnd_ending null) i
    rw [String.toList_ofList] at second
    rw [ahead, source, first]
    exact second.symm

open Lexer

end GrammarMachine
