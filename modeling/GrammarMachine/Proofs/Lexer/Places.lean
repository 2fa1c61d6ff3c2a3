import GrammarMachine.Proofs.Lexer.Sessions
import GrammarMachine.Proofs.Lexer.Walks
import Mathlib.Data.List.DropRight

/-!
Places in a text. The position, the line and the column behind some characters are functions of
these characters. The cursor counts them one by one, in whatever portions they are consumed and
however far the window reaches, so each token and each diagnostic has the place behind the
characters in front of it.
-/

namespace GrammarMachine

/-- Line breaks among some characters: line feeds, and carriage returns with no line feed directly
behind them. -/
def lineBreaks : List Char → Nat
  | [] => 0
  | c :: rest =>
    lineBreaks rest + if c = '\n' ∨ c = '\r' ∧ rest.head? ≠ some '\n' then 1 else 0

/-- The characters behind the last line break. -/
def lastLine (x : List Char) : List Char :=
  x.rtakeWhile fun c => c ≠ '\r' ∧ c ≠ '\n'

/-- The place behind some characters from the start of a text on. -/
def Origin.behind (x : List Char) : Origin :=
  ⟨(String.ofList x).utf8ByteSize, 1 + lineBreaks x, 1 + (lastLine x).length⟩

/-- A line feed ends a line unless a carriage return in front of it did. -/
theorem lineBreaks_snoc (x : List Char) (c : Char) :
    lineBreaks (x ++ [c]) =
      lineBreaks x + if c = '\r' ∨ c = '\n' ∧ x.getLast? ≠ some '\r' then 1 else 0 := by
  induction x with
  | nil => simp [lineBreaks, or_comm]
  | cons d x ih =>
    rw [List.cons_append, lineBreaks, lineBreaks, ih]
    cases x with
    | nil =>
      simp only [List.head?_cons, List.head?_nil, List.getLast?_nil, List.nil_append,
        List.getLast?_singleton]
      grind
    | cons e x =>
      rw [List.cons_append, List.head?_cons, List.head?_cons, List.getLast?_cons_cons]
      omega

theorem lastLine_snoc (x : List Char) (c : Char) :
    lastLine (x ++ [c]) = if c = '\r' ∨ c = '\n' then [] else lastLine x ++ [c] := by
  rw [lastLine, List.rtakeWhile_concat]
  by_cases ends : c = '\r' ∨ c = '\n'
  · rw [if_pos ends, if_neg]
    simpa [or_iff_not_imp_left] using ends
  · rw [if_neg ends, if_pos]
    · rfl
    · simpa [not_or] using ends

theorem lastLine_of_return {x : List Char} (last : x.getLast? = some '\r') : lastLine x = [] := by
  obtain ⟨front, rfl⟩ := List.getLast?_eq_some_iff.1 last
  rw [lastLine_snoc, if_pos (.inl rfl)]

/-- No counter is further on than the characters in front of the place. -/
theorem Origin.behind_le (x : List Char) :
    (behind x).line ≤ 1 + x.length ∧ (behind x).col ≤ 1 + x.length := by
  constructor
  · have few : lineBreaks x ≤ x.length := by
      induction x with
      | nil => exact Nat.le_refl 0
      | cons c x ih =>
        rw [lineBreaks, List.length_cons]
        split <;> omega
    exact Nat.add_le_add_left few 1
  · exact Nat.add_le_add_left (List.rtakeWhile_suffix _ _).length_le 1

/-- Behind readings none of which ends the text, as many are counted. -/
theorem Source.Lays.reach_length {s : Source} {last : Reading} {p : Nat} {front rs : List Reading}
    (lays : s.Lays last p (front ++ rs)) (going : ∀ r ∈ front, r.isEnd = false) :
    s.reach p front.length = p + extent front := by
  induction front generalizing p with
  | nil => rfl
  | cons r rest ih =>
    obtain ⟨here, behind⟩ := lays
    obtain ⟨first, others⟩ := List.forall_mem_cons.1 going
    rw [List.length_cons, Nat.add_comm, reach_add,
      reach_succ_of_open (i := 0) (by rw [reach_zero, here]; exact first), reach_zero, here,
      ih behind others, extent, Nat.add_assoc]

/-- In a text, the characters from a place on are laid out there. -/
theorem Source.lays_behind {text : String} {x y : List Char} (whole : text.toList = x ++ y)
    (null : Bool) :
    (ofText text null).Lays (.ending null) (String.ofList x).utf8ByteSize
      (y.map Reading.ofChar) := by
  have lays := lays_ofText text null
  rw [whole, List.map_append] at lays
  have rest := lays.behind
  rwa [Nat.zero_add, extent_ofChars] at rest

namespace Cursor

variable {c c' : Cursor} {text : String} {null : Bool} {x y : List Char} {ch : Char}

/-- The cursor is behind the characters `x` of the text. -/
structure Behind (text : String) (x : List Char) (c : Cursor) : Prop where
  front : x <+: text.toList
  letters : '\x00' ∉ x
  origin : c.origin = .behind x
  afterReturn : c.afterReturn = decide (x.getLast? = some '\r')

theorem behind_start (text : String) (null : Bool) :
    (Cursor.start (.ofText text null)).Behind text [] :=
  ⟨List.nil_prefix, List.not_mem_nil, rfl, rfl⟩

/-- Only the place counts, and not what has been read ahead. -/
theorem Behind.agrees (behind : c.Behind text x) (agrees : c.Agrees c') : c'.Behind text x := by
  refine ⟨behind.front, behind.letters, ?_, agrees.afterReturn.trans behind.afterReturn⟩
  rw [← behind.origin, Cursor.origin, Cursor.origin, agrees.pos, agrees.line, agrees.col]

/-- What tracking a character does, line feeds behind carriage returns apart. -/
theorem track_code (c : Cursor) (ch : Char) :
    c.track (Text.code ch) = { c with
      line := c.line + if ch = '\r' ∨ ch = '\n' ∧ c.afterReturn = false then 1 else 0
      col := if ch = '\r' ∨ ch = '\n' ∧ c.afterReturn = false then 1
        else if ch = '\n' then c.col else c.col + 1
      afterReturn := decide (ch = '\r') } := by
  have same : ∀ d : Char, (Text.code ch == Text.code d) = decide (ch = d) := by
    intro d
    rw [Bool.eq_iff_iff, beq_iff_eq, decide_eq_true_eq]
    exact ⟨Text.code_inj, congrArg _⟩
  unfold track
  rw [show carriageReturn = Text.code '\r' from rfl, show lineFeed = Text.code '\n' from rfl,
    same, same]
  by_cases returns : ch = '\r'
  · simp [returns]
  by_cases feeds : ch = '\n'
  · cases c.afterReturn <;> simp [feeds]
  · simp [returns, feeds]

/-- Tracking a character moves the place behind it. -/
theorem Behind.track (behind : c.Behind text x) (front : x ++ [ch] <+: text.toList)
    (letter : ch ≠ '\x00') :
    ({ c.track (Text.code ch) with
      pos := (c.track (Text.code ch)).pos + (Reading.ofChar ch).width } : Cursor).Behind text
      (x ++ [ch]) := by
  obtain ⟨_, letters, origin, afterReturn⟩ := behind
  obtain ⟨pos, line, col⟩ := Origin.mk.inj origin
  have apart : c.afterReturn = false ↔ x.getLast? ≠ some '\r' := by
    rw [afterReturn, decide_eq_false_iff_not]
  rw [track_code]
  refine ⟨front, ?_, ?_, ?_⟩
  · rw [List.mem_append, not_or]
    exact ⟨letters, by simpa using Ne.symm letter⟩
  · rw [Cursor.origin, Origin.behind, lineBreaks_snoc, lastLine_snoc, Origin.mk.injEq]
    refine ⟨?_, ?_, ?_⟩
    · rw [String.ofList_append, String.utf8ByteSize_append, pos]
      simp [Reading.ofChar]
    · simp only [apart, line, Nat.add_assoc]
    · simp only [apart, col]
      by_cases returns : ch = '\r'
      · simp [returns]
      by_cases feeds : ch = '\n'
      · -- A line feed behind a carriage return stands where the line has just begun.
        by_cases last : x.getLast? = some '\r'
        · simp [feeds, last, lastLine_of_return last]
        · simp [feeds, last]
      · simp [returns, feeds, Nat.add_assoc]
  · simp

/-- Behind some characters stand the others. -/
theorem Behind.lays (behind : c.Behind text x) (source : c.reader.source = .ofText text null) :
    ∃ y, text.toList = x ++ y ∧
      c.reader.source.Lays (.ending null) c.pos (y.map Reading.ofChar) := by
  obtain ⟨⟨y, whole⟩, _, origin, _⟩ := behind
  refine ⟨y, whole.symm, ?_⟩
  rw [source, show c.pos = _ from congrArg Origin.pos origin]
  exact Source.lays_behind whole.symm null

/-- A cursor behind some characters is in front of the others. -/
theorem Behind.faces (behind : c.Behind text x) (faithful : c.Faithful)
    (source : c.reader.source = .ofText text null) :
    ∃ y, text.toList = x ++ y ∧ c.Faces null y := by
  obtain ⟨y, whole, rest⟩ := behind.lays source
  refine ⟨y, whole, ⟨faithful, x.length, ?_⟩,
    funext (rest.readAt_reach (Reading.isEnd_ending null))⟩
  have lays := Source.lays_ofText text null
  rw [whole, List.map_append] at lays
  have letters : ∀ r ∈ x.map Reading.ofChar, r.isEnd = false := by
    intro r mem
    obtain ⟨ch, inside, rfl⟩ := List.mem_map.1 mem
    rw [Reading.isEnd_ofChar, decide_eq_false_iff_not]
    exact fun same => behind.letters (same ▸ inside)
  have reached := lays.reach_length letters
  rw [List.length_map, Nat.zero_add, Source.extent_ofChars] at reached
  rw [source]
  exact (congrArg Origin.pos behind.origin).trans reached.symm

/-- In front of a character, some character of the text is read. -/
theorem Behind.exists_next (behind : c.Behind text x) (source : c.reader.source = .ofText text null)
    (going : (c.reader.source.readAt c.pos).isEnd = false) :
    ∃ ch, c.reader.source.readAt c.pos = .ofChar ch ∧ x ++ [ch] <+: text.toList ∧ ch ≠ '\x00' := by
  obtain ⟨y, whole, lays⟩ := behind.lays source
  rw [lays.readAt_eq] at going ⊢
  cases y with
  | nil =>
    rw [List.map_nil, List.headD_nil, Reading.isEnd_ending] at going
    cases going
  | cons ch y =>
    rw [List.map_cons, List.headD_cons, Reading.isEnd_ofChar, decide_eq_false_iff_not] at going
    exact ⟨ch, rfl, ⟨y, by rw [whole, List.append_assoc]; rfl⟩, going⟩

theorem behind_pass {p i n : Nat} (shows : c.Shows p) (at_i : c.pos = c.reader.source.reach p i)
    (source : c.reader.source = .ofText text null) (behind : c.Behind text x)
    (passed : c.pass n i = .ok c') : ∃ x', c'.Behind text x' := by
  induction n generalizing c i x with
  | zero =>
    cases passed
    exact ⟨x, behind⟩
  | succ n ih =>
    obtain ⟨⟨r, d⟩, peeked, rest⟩ := bind_eq_ok_iff.1 passed
    obtain ⟨_, same, read, shows', agrees⟩ := yields_peek shows i
    cases peeked.symm.trans same
    dsimp only at read shows' agrees rest
    have behind' := behind.agrees agrees
    split at rest
    · cases rest
      exact ⟨x, behind'⟩
    · next going =>
      rw [Bool.not_eq_true, read] at going
      obtain ⟨ch, next, front, letter⟩ := behind.exists_next source (at_i ▸ going)
      rw [← at_i, next] at read
      subst read
      refine ih (i := i + 1) (shows'.congr ?_ ?_) ?_ ?_ (behind'.track front letter) rest
      · exact reader_track d _
      · exact window_track d _
      · simp only [pos_track, reader_track, agrees.pos, agrees.source]
        rw [Source.reach_succ_of_open going, ← at_i, next]
      · exact (congrArg Reader.source (reader_track d _)).trans (agrees.source.trans source)

/-- Consuming counts the characters that it passes. -/
theorem Consumes.behind {n : Nat} (consumes : c.Consumes n c')
    (source : c.reader.source = .ofText text null) (behind : c.Behind text x) :
    ∃ x', c'.Behind text x' := by
  obtain ⟨d, ⟨agrees, faithful⟩, consumed⟩ := consumes
  obtain ⟨last, passed, same⟩ := bind_eq_ok_iff.1 consumed
  obtain ⟨x', behind'⟩ := behind_pass faithful (i := 0) rfl (agrees.source.trans source)
    (behind.agrees agrees) passed
  cases same
  refine ⟨x', ?_⟩
  split
  · exact behind'.agrees ⟨rfl, rfl, rfl, rfl, rfl⟩
  · exact behind'

/-- So does consuming time and again. -/
theorem Moves.behind (moves : c.Moves c') (source : c.reader.source = .ofText text null)
    (behind : c.Behind text x) : ∃ x', c'.Behind text x' := by
  suffices c'.reader.source = .ofText text null ∧ ∃ x', c'.Behind text x' from this.2
  induction moves with
  | refl => exact ⟨source, x, behind⟩
  | tail _ move ih =>
    obtain ⟨source, x, behind⟩ := ih
    obtain ⟨going, n, _, consumes⟩ := move
    exact ⟨(consumes.along going).2.1.trans source, consumes.behind source behind⟩

/-- The letters ahead are the characters in front of the null character or the end. -/
theorem letters_ofChars (n : Nat) (y : List Char) :
    (List.range n).filterMap (fun i => (Reading.ofChars null y i).letter?) =
      (y.takeWhile (· ≠ '\x00')).take n := by
  induction y generalizing n with
  | nil =>
    have none : ∀ i, (Reading.ofChars null [] i).letter? = none := fun _ =>
      Reading.letter?_of_isEnd (Reading.isEnd_ending null)
    simp [none]
  | cons ch y ih =>
    by_cases ended : ch = '\x00'
    · subst ended
      have none : ∀ i, (Reading.ofChars null ('\x00' :: y) i).letter? = none := by
        rintro (_ | i) <;> rfl
      simp [none]
    cases n with
    | zero => rfl
    | succ n =>
      rw [List.range_succ_eq_map, List.filterMap_cons, List.filterMap_map,
        show Reading.ofChars null (ch :: y) 0 = .ofChar ch from rfl, Reading.letter?_ofChar ended,
        List.takeWhile_cons_of_pos (by simpa using ended), List.take_succ_cons]
      simpa only [Function.comp_def, Reading.ofChars_succ ended, List.cons.injEq, true_and]
        using ih n

/-- The characters in front of a cursor tell those behind which it is. -/
theorem Behind.eq_of_faces (behind : c.Behind text x)
    (source : c.reader.source = .ofText text null) {x' y : List Char} (faces : c.Faces null y)
    (whole : text.toList = x' ++ y) (letters : '\x00' ∉ x') : x = x' := by
  obtain ⟨y', whole', lays⟩ := behind.lays source
  have ahead : Reading.ofChars null y' = Reading.ofChars null y :=
    (funext (lays.readAt_reach (Reading.isEnd_ending null))).symm.trans faces.ahead
  have same : y'.takeWhile (· ≠ '\x00') = y.takeWhile (· ≠ '\x00') := by
    have prefixes : (List.range (y'.length + y.length)).filterMap (fun i =>
        (Reading.ofChars null y' i).letter?) = _ := letters_ofChars _ y'
    have short := (List.takeWhile_prefix (· ≠ '\x00') (l := y)).length_le
    have short' := (List.takeWhile_prefix (· ≠ '\x00') (l := y')).length_le
    rw [ahead, letters_ofChars, List.take_of_length_le (by omega),
      List.take_of_length_le (by omega)] at prefixes
    exact prefixes.symm
  have pass : ∀ {p : List Char}, '\x00' ∉ p → ∀ c ∈ p, decide (c ≠ '\x00') = true :=
    fun letters c mem => decide_eq_true fun null => letters (null ▸ mem)
  have fronts : x ++ y'.takeWhile (· ≠ '\x00') = x' ++ y.takeWhile (· ≠ '\x00') := by
    rw [← List.takeWhile_append_of_pos (pass behind.letters), ← whole', whole,
      List.takeWhile_append_of_pos (pass letters)]
  rw [same] at fronts
  exact List.append_cancel_right fronts

/-- The letters ahead are the next ones of the text. -/
theorem Behind.letters_prefix (behind : c.Behind text x)
    (source : c.reader.source = .ofText text null) (n : Nat) :
    x ++ c.letters n <+: text.toList := by
  obtain ⟨y, whole, lays⟩ := behind.lays source
  have ahead : c.ahead = Reading.ofChars null y :=
    funext (lays.readAt_reach (Reading.isEnd_ending null))
  rw [whole, List.prefix_append_right_inj, Cursor.letters, ahead, letters_ofChars]
  exact (List.take_prefix _ _).trans (List.takeWhile_prefix _)

end Cursor

/-- The place is the one behind some characters that the text starts with. -/
def Origin.Exact (text : String) (o : Origin) : Prop :=
  ∃ x y, text = x ++ y ∧ o = .behind x.toList

/-- The token is in its place, and its text is there if it has one. -/
def Token.Exact (text : String) (t : Token) : Prop :=
  ∃ x y, text = x ++ y ∧ t.origin = .behind x.toList ∧
    ∀ content, t.text = some content → ∃ rest, y = content ++ rest

theorem Cursor.Behind.exact {text : String} {x : List Char} {c : Cursor}
    (behind : c.Behind text x) : c.origin.Exact text := by
  obtain ⟨⟨y, whole⟩, _, origin, _⟩ := behind
  refine ⟨.ofList x, .ofList y, ?_, by rwa [String.toList_ofList]⟩
  rw [← String.ofList_append, whole, String.ofList_toList]

namespace Lexer

variable {g : Grammar} {text : String} {null : Bool} {l l' next : Lexer} {afterError : Bool}
  {piece : Piece} {t : Token}

/-- The lexer stands behind some characters of the text, and its reports are in their places. -/
structure Exact (text : String) (null : Bool) (l : Lexer) : Prop
    extends l.Stands (.ofText text null) where
  place : ∃ x, l.cursor.Behind text x
  reported : ∀ d ∈ l.diagnostics, d.origin.Exact text

theorem exact_start (text : String) (null : Bool) :
    (start (.ofText text null)).Exact text null :=
  ⟨stands_start _, ⟨[], Cursor.behind_start text null⟩, nofun⟩

namespace Exact

theorem origin (exact : l.Exact text null) : l.origin.Exact text := by
  obtain ⟨x, behind⟩ := exact.place
  exact behind.exact

/-- Without a place of its own, a lexer is as exact as its cursor and its diagnostics. -/
theorem congr (exact : l.Exact text null) (cursor : l'.cursor = l.cursor)
    (diagnostics : l'.diagnostics = l.diagnostics) : l'.Exact text null := by
  obtain ⟨⟨faithful, source⟩, place, reported⟩ := exact
  rw [← cursor] at faithful source place
  rw [← diagnostics] at reported
  exact ⟨⟨faithful, source⟩, place, reported⟩

theorem diagnose (exact : l.Exact text null) {o : Origin} (place : o.Exact text) (key : Key)
    (args : List String) : (l.diagnose o key args).Exact text null := by
  refine ⟨⟨exact.faithful, exact.source⟩, exact.place, fun d mem => ?_⟩
  rcases Array.mem_push.1 mem with old | rfl
  · exact exact.reported d old
  · exact place

theorem moves (exact : l.Exact text null) {c : Cursor} (moves : l.cursor.Moves c) :
    ({ l with cursor := c } : Lexer).Exact text null := by
  obtain ⟨faithful, source⟩ := moves.along exact.faithful
  obtain ⟨x, behind⟩ := exact.place
  exact ⟨⟨faithful, source.trans exact.source⟩, moves.behind exact.source behind, exact.reported⟩

theorem consumes (exact : l.Exact text null) (going : (l.cursor.ahead 0).isEnd = false) {n : Nat}
    (long : 0 < n) {c : Cursor} (consumes : l.cursor.Consumes n c) :
    ({ l with cursor := c } : Lexer).Exact text null :=
  exact.moves (.single ⟨going, n, long, consumes⟩)

/-- The text of a match is made of the letters ahead. -/
theorem token (exact : l.Exact text null) (id : UInt32) (carries : Bool) (n : Nat) :
    Token.Exact text ⟨id, if carries then some (.ofList (l.cursor.letters n)) else none, l.origin,
      afterError⟩ := by
  obtain ⟨x, behind⟩ := exact.place
  obtain ⟨rest, whole⟩ := behind.letters_prefix exact.source n
  refine ⟨.ofList x, .ofList (l.cursor.letters n ++ rest), ?_, ?_, fun content carried => ?_⟩
  · rw [← String.ofList_append, ← List.append_assoc, whole, String.ofList_toList]
  · rw [String.toList_ofList]
    exact behind.origin
  · dsimp only at carried
    split at carried
    · cases carried
      exact ⟨.ofList rest, String.ofList_append⟩
    · cases carried

theorem takes (sound : g.Sound) (exact : l.Exact text null)
    (takes : Takes g afterError l (.takes piece next)) :
    next.Exact text null ∧ ∀ t, piece = .token t → t.Exact text := by
  cases takes with
  | unmatched going _ consumes =>
    have told : l.tellUnexpected.Exact text null := by
      unfold tellUnexpected
      split
      · exact exact
      · exact (exact.diagnose exact.origin _ _).congr rfl rfl
    rw [← cursor_tellUnexpected l] at going consumes
    exact ⟨told.consumes going Nat.one_pos consumes, nofun⟩
  | @matched m c _ _ going munches long consumes sorts =>
    have free : ({ l with stuck := false } : Lexer).Exact text null := exact.congr rfl rfl
    have behind : ({ l with cursor := c, stuck := false } : Lexer).Exact text null :=
      free.consumes going long consumes
    cases sorts with
    | token =>
      refine ⟨behind.congr rfl rfl, ?_⟩
      rintro _ ⟨rfl⟩
      exact exact.token _ _ _
    | blank => exact ⟨behind, nofun⟩
    | comment recognized skipped =>
      obtain ⟨c', moves, rfl | rfl⟩ := moves_skipComment sound
        (comments_of_munches sound munches recognized) behind.faithful Nat.one_pos skipped
      · exact ⟨behind.moves moves, nofun⟩
      · exact ⟨(behind.moves moves).diagnose exact.origin _ _, nofun⟩
    | strayEnd => exact ⟨behind.diagnose exact.origin _ _, nofun⟩

/-- A call returns a token that is in its place, and reports errors in theirs. -/
theorem call (sound : g.Sound) (exact : l.Exact text null) {stretches : List Stretch}
    (call : Call g afterError l stretches t l') : l'.Exact text null ∧ t.Exact text := by
  induction call with
  | @ended afterError l t ends =>
    have turn := (yields_step sound exact.faithful _).holds ends
    cases turn
    obtain ⟨x, y, whole, place⟩ := exact.origin
    exact ⟨exact, x, y, whole, place, nofun⟩
  | @token afterError l _ _ takes =>
    have turn := (yields_step sound exact.faithful _).holds takes
    obtain ⟨exact', token⟩ := exact.takes sound turn
    exact ⟨exact', token _ rfl⟩
  | @passes afterError l _ _ _ _ _ takes _ _ ih =>
    have turn := (yields_step sound exact.faithful _).holds takes
    exact ih (exact.takes sound turn).1

end Exact

theorem Session.exact (sound : g.Sound) {ts : List Token} {ds : List Diagnostic}
    (session : Session g (.ofText text null) ts ds l) :
    l.Exact text null ∧ (∀ t ∈ ts, t.Exact text) ∧ ∀ d ∈ ds, d.origin.Exact text := by
  induction session with
  | start => exact ⟨exact_start text null, nofun, nofun⟩
  | next _ delivers ih =>
    obtain ⟨exact, tokens, taken⟩ := ih
    obtain ⟨_, cut⟩ := call_of_nextFrom delivers
    obtain ⟨exact', token⟩ := exact.call sound cut
    refine ⟨exact', List.forall_mem_append.2 ⟨tokens, ?_⟩, taken⟩
    exact List.forall_mem_singleton.2 token
  | take _ ih =>
    obtain ⟨⟨⟨faithful, source⟩, place, reported⟩, tokens, taken⟩ := ih
    refine ⟨⟨⟨faithful, source⟩, place, nofun⟩, tokens, List.forall_mem_append.2 ⟨taken, ?_⟩⟩
    exact fun d mem => reported d (Array.mem_toList_iff.1 mem)

theorem Seeks.exact (sound : g.Sound) (seeks : Seeks g (.ofText text null) afterError l) :
    l.Exact text null := by
  induction seeks with
  | call session => exact (session.exact sound).1
  | again _ takes _ ih =>
    have turn := (yields_step sound ih.faithful _).holds takes
    exact (ih.takes sound turn).1

end Lexer

open Lexer

end GrammarMachine
