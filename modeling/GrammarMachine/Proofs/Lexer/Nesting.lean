import GrammarMachine.Proofs.Lexer.Comments
import GrammarMachine.Proofs.Lexer.Ending
import GrammarMachine.Proofs.Lexer.Places
import GrammarMachine.Proofs.Parse.Calculator
import GrammarMachine.Proofs.Parse.Clean

/-!
Nested comments of the calculator. Read from the left without overlaps, a mark that opens raises the
nesting and one that closes lowers it; behind the mark that starts a comment, exactly the shortest
stretch that brings the nesting back to nothing is skipped.
-/

namespace GrammarMachine

namespace Samples.Calculator

/-- By how much the marks of comments among some characters raise the nesting. -/
def balance : List Char → Int
  | '/' :: '*' :: rest => balance rest + 1
  | '*' :: '/' :: rest => balance rest - 1
  | _ :: rest => balance rest
  | [] => 0

/-- The characters in front of the null character. -/
def upToNull (cs : List Char) : List Char := cs.takeWhile (· != '\x00')

/-- A comment that is open `n` times closes in `cs` behind `p`, the shortest stretch that brings the
nesting to nothing. -/
structure Closes (n : Nat) (cs p : List Char) : Prop where
  front : p <+: cs
  level : n + balance p = 0
  shortest : ∀ q, q <+: cs → n + balance q = 0 → p.length ≤ q.length

variable {c : Char} {cs p rest : List Char} {n n' : Nat}

theorem balance_open (rest : List Char) : balance ('/' :: '*' :: rest) = balance rest + 1 := rfl

theorem balance_close (rest : List Char) : balance ('*' :: '/' :: rest) = balance rest - 1 := rfl

theorem balance_other (closes : ¬(c = '*' ∧ rest.head? = some '/'))
    (opens : ¬(c = '/' ∧ rest.head? = some '*')) : balance (c :: rest) = balance rest := by
  rw [balance]
  · rintro rest' rfl rfl
    exact opens ⟨rfl, rfl⟩
  · rintro rest' rfl rfl
    exact closes ⟨rfl, rfl⟩

/-- It takes two characters to make a mark. -/
theorem balance_short (short : p.length ≤ 1) : balance p = 0 := by
  match p with
  | [] => rfl
  | [c] => exact balance_other (by simp) (by simp)

theorem upToNull_append (letters : '\x00' ∉ p) (rest : List Char) :
    upToNull (p ++ rest) = p ++ upToNull rest :=
  List.takeWhile_append_of_pos fun _ mem => bne_iff_ne.2 fun same => letters (same ▸ mem)

theorem not_mem_upToNull (inside : p <+: upToNull cs) : '\x00' ∉ p := by
  intro mem
  have other := List.all_eq_true.1 List.all_takeWhile _ (inside.subset mem)
  simp at other

theorem upToNull_append_fromNull (cs : List Char) : upToNull cs ++ fromNull cs = cs :=
  List.takeWhile_append_dropWhile

/-- From the null character on, the text has ended. -/
theorem isEnd_fromNull (null : Bool) (cs : List Char) :
    (Reading.ofChars null (fromNull cs) 0).isEnd = true := by
  cases from_ : fromNull cs with
  | nil => exact Reading.isEnd_ending null
  | cons c rest =>
    have first := List.head?_dropWhile_not (· != '\x00') cs
    rw [show cs.dropWhile (· != '\x00') = c :: rest from from_] at first
    obtain rfl : c = '\x00' := by simpa using first
    rfl

/-- Where a comment that is open `n` times goes on behind `cs`: behind the stretch that closes it,
if there is one in front of the end. -/
def Closing (n : Nat) (cs : List Char) : Option (List Char) → Prop
  | some rest => ∃ p, cs = p ++ rest ∧ Closes n (upToNull cs) p
  | none => ∀ q, q <+: upToNull cs → n + balance q ≠ 0

/-- A mark or a single character in front only changes the nesting. -/
theorem Closing.further {behind : Option (List Char)} (front : List Char) (nested : 0 < n)
    (short : front.length ≤ 2) (letters : '\x00' ∉ front)
    (shift : ∀ q, q <+: upToNull cs → n + balance (front ++ q) = n' + balance q)
    (closing : Closing n' cs behind) : Closing n (front ++ cs) behind := by
  have split : ∀ q, q <+: upToNull (front ++ cs) → n + balance q = 0 →
      ∃ q', q = front ++ q' ∧ q' <+: upToNull cs ∧ n' + balance q' = 0 := by
    intro q inside level
    rw [upToNull_append letters] at inside
    rcases List.prefix_or_prefix_of_prefix inside (List.prefix_append front _) with before | long
    · obtain rfl : q = front := by
        have long : front.length ≤ q.length := by
          by_contra fewer
          rw [balance_short (by omega)] at level
          omega
        exact before.eq_of_length (Nat.le_antisymm before.length_le long)
      have none := shift [] List.nil_prefix
      rw [List.append_nil, level] at none
      exact ⟨[], (List.append_nil _).symm, List.nil_prefix, none.symm⟩
    · obtain ⟨q', rfl⟩ := long
      have inside' := (List.prefix_append_right_inj front).1 inside
      exact ⟨q', rfl, inside', (shift q' inside').symm.trans level⟩
  cases behind with
  | some rest =>
    obtain ⟨p, rfl, inside, level, shortest⟩ := closing
    refine ⟨front ++ p, (List.append_assoc ..).symm, ?_, (shift p inside).trans level, ?_⟩
    · rw [upToNull_append letters]
      exact (List.prefix_append_right_inj front).2 inside
    · intro q inside' level'
      obtain ⟨q', rfl, inside', level'⟩ := split q inside' level'
      rw [List.length_append, List.length_append]
      exact Nat.add_le_add_left (shortest q' inside' level') _
  | none =>
    intro q inside level
    obtain ⟨q', _, inside', level'⟩ := split q inside level
    exact closing q' inside' level'

/-- A comment is skipped up to where it closes. -/
theorem closing_skip (nested : 0 < n) (cs : List Char) : Closing n cs (skip n cs) := by
  have outside : ∀ {n : Nat}, 0 < n → ∀ q : List Char, q <+: [] → (n : Int) + balance q ≠ 0 := by
    intro n nested q inside
    cases List.prefix_nil.1 inside
    simp only [balance]
    omega
  fun_induction skip n cs with
  | case1 => exact outside nested
  | case2 n cs => exact outside nested
  | case3 n c cs letter both le =>
    obtain ⟨rfl, here⟩ := both
    obtain ⟨rest, rfl⟩ := List.head?_eq_some_iff.1 here
    obtain rfl : n = 1 := by omega
    have closed : Closing 0 rest (some rest) :=
      ⟨[], rfl, List.nil_prefix, rfl, fun _ _ _ => Nat.zero_le _⟩
    refine closed.further ['*', '/'] nested (Nat.le_refl 2) (by decide) fun q _ => ?_
    rw [List.cons_append, List.cons_append, List.nil_append, balance_close]
    omega
  | case4 n c cs letter both more ih =>
    obtain ⟨rfl, here⟩ := both
    obtain ⟨rest, rfl⟩ := List.head?_eq_some_iff.1 here
    have later : Closing (n - 1) rest (skip (n - 1) rest) := ih (by omega)
    refine later.further ['*', '/'] nested (Nat.le_refl 2) (by decide) fun q _ => ?_
    rw [List.cons_append, List.cons_append, List.nil_append, balance_close]
    omega
  | case5 n c cs letter _ both ih =>
    obtain ⟨rfl, here⟩ := both
    obtain ⟨rest, rfl⟩ := List.head?_eq_some_iff.1 here
    have later : Closing (n + 1) rest (skip (n + 1) rest) := ih (Nat.succ_pos n)
    refine later.further ['/', '*'] nested (Nat.le_refl 2) (by decide) fun q _ => ?_
    rw [List.cons_append, List.cons_append, List.nil_append, balance_open]
    omega
  | case6 n c cs letter closes opens ih =>
    have single : '\x00' ∉ [c] := by simpa using Ne.symm letter
    refine (ih nested).further [c] nested (Nat.le_succ 1) single fun q inside => ?_
    -- A stretch shows no more of the next character than there is.
    have next : ∀ {d}, q.head? = some d → cs.head? = some d := by
      intro d here
      obtain ⟨q, rfl⟩ := List.head?_eq_some_iff.1 here
      obtain ⟨t, rfl⟩ := inside.trans (List.takeWhile_prefix _)
      rfl
    rw [List.singleton_append, balance_other (fun both => closes ⟨both.1, next both.2⟩)
      fun both => opens ⟨both.1, next both.2⟩]

open Lexer

variable {g : Grammar} {flavor : Flavor} {text : String} {null afterError : Bool}
  {l l₁ l' next : Lexer}

/-- Behind the mark that starts a comment, exactly the stretch that closes it is skipped, or all
there is, with one diagnostic. -/
theorem skips_of_exact (flavor : Flavor) (o : Origin) (exact : l₁.Exact text null) :
    ∃ x y l₂, text.toList = x ++ y ∧ l₁.origin = .behind x ∧
      skipComment (grammar flavor) o l₁.turns 1 l₁ = .ok l₂ ∧
      ((∃ p, Closes 1 (upToNull y) p ∧ l₂.origin = .behind (x ++ p) ∧
          l₂.diagnostics = l₁.diagnostics) ∨
        (∀ q, q <+: upToNull y → 1 + balance q ≠ 0) ∧ l₂.origin = .behind (x ++ upToNull y) ∧
          l₂.diagnostics = l₁.diagnostics.push ⟨o, ⟨.unterminatedComment, []⟩⟩ ∧
          (l₂.cursor.ahead 0).isEnd = true) := by
  have sound := Grammar.sound_of_check (check_grammar flavor)
  have root : 0 < comments.states.size := by decide
  obtain ⟨x, behind⟩ := exact.place
  obtain ⟨y, whole, faces⟩ := behind.faces exact.faithful exact.source
  obtain ⟨l₂, skipped, leads⟩ : Yields (skipComment (grammar flavor) o l₁.turns 1 l₁) _ :=
    yields_skipComment sound root exact.faithful Nat.one_pos (Nat.lt_succ_self _)
  refine ⟨x, y, l₂, whole, behind.origin, skipped, ?_⟩
  have source : l₂.cursor.reader.source = .ofText text null := leads.source.trans exact.source
  obtain ⟨x', behind'⟩ : ∃ x', l₂.cursor.Behind text x' := by
    obtain ⟨c, moves, rfl | rfl⟩ := moves_skipComment sound root exact.faithful Nat.one_pos skipped
    · exact (exact.moves moves).place
    · exact (exact.moves moves).place
  have closing := closing_skip Nat.one_pos y
  have outcome := skipped_skipComment faces Nat.one_pos skipped
  cases found : skip 1 y with
  | some rest =>
    rw [found] at closing outcome
    obtain ⟨p, rfl, closes⟩ := closing
    obtain ⟨c, rfl, faces'⟩ := outcome
    have inside : '\x00' ∉ p := not_mem_upToNull closes.front
    have letters : '\x00' ∉ x ++ p := List.not_mem_append behind.letters inside
    rw [← List.append_assoc] at whole
    obtain rfl := behind'.eq_of_faces source faces' whole letters
    exact .inl ⟨p, closes, behind'.origin, rfl⟩
  | none =>
    rw [found] at closing outcome
    obtain ⟨c, rfl, faces'⟩ := outcome
    have inside : '\x00' ∉ upToNull y := not_mem_upToNull (List.prefix_refl _)
    have letters : '\x00' ∉ x ++ upToNull y := List.not_mem_append behind.letters inside
    rw [← upToNull_append_fromNull y, ← List.append_assoc] at whole
    obtain rfl := behind'.eq_of_faces source faces' whole letters
    refine .inr ⟨fun q inside => by simpa using closing q inside, behind'.origin, rfl, ?_⟩
    exact (congrArg Reading.isEnd (congrFun faces'.ahead 0)).trans (isEnd_fromNull null y)

/-- The lexer is behind the mark that starts a comment, in its place. -/
theorem exact_of_opens (sound : g.Sound) (exact : l.Exact text null) (opens : Opens g l l') :
    l'.Exact text null := by
  obtain ⟨_, m, c, going, long, _, _, consumes, rfl⟩ := opens.consumes sound exact.faithful
  have free : ({ l with stuck := false } : Lexer).Exact text null := exact.congr rfl rfl
  exact free.consumes going long consumes

section Records

variable {ds : List Diagnostic} {d : Diagnostic} {piece : Piece} {t : Token}
  {stretches : List Stretch}

/-- Behind a diagnostic about an unterminated comment none is recorded, and the text has ended. -/
def Sealed (ds : List Diagnostic) (l : Lexer) : Prop :=
  ∀ front d rest, ds ++ l.diagnostics.toList = front ++ d :: rest →
    d.message.key = .unterminatedComment → rest = [] ∧ (l.cursor.ahead 0).isEnd = true

theorem Sealed.same (sealed : Sealed ds l) (going : (l.cursor.ahead 0).isEnd = false)
    (same : l'.diagnostics = l.diagnostics) : Sealed ds l' := by
  intro front d rest whole key
  rw [same] at whole
  have ended := (sealed front d rest whole key).2
  rw [going] at ended
  cases ended

theorem Sealed.push (sealed : Sealed ds l) (going : (l.cursor.ahead 0).isEnd = false)
    (pushed : l'.diagnostics = l.diagnostics.push d)
    (last : d.message.key = .unterminatedComment → (l'.cursor.ahead 0).isEnd = true) :
    Sealed ds l' := by
  intro front d' rest whole key
  rw [pushed, Array.toList_push, ← List.append_assoc] at whole
  rcases List.eq_nil_or_concat rest with rfl | ⟨rest, z, rfl⟩
  · obtain ⟨_, same⟩ := List.append_inj' whole rfl
    cases same
    exact ⟨rfl, last key⟩
  · rw [List.concat_eq_append, ← List.cons_append, ← List.append_assoc] at whole
    obtain ⟨before, _⟩ := List.append_inj' whole rfl
    have ended := (sealed front d' rest before key).2
    rw [going] at ended
    cases ended

theorem Sealed.takes (sealed : Sealed ds l) (exact : l.Exact text null)
    (takes : Takes (grammar flavor) afterError l (.takes piece next)) : Sealed ds next := by
  cases takes with
  | unmatched going =>
    by_cases stuck : l.stuck = true
    · exact sealed.same going (by simp [tellUnexpected, stuck])
    · have told : l.tellUnexpected.diagnostics = l.diagnostics.push ⟨l.origin, ⟨.unexpectedChar,
          [describe (l.cursor.ahead 0).code]⟩⟩ := by
        simp [tellUnexpected, stuck, diagnose]
      exact sealed.push going told fun other => by cases other
  | @matched m c _ _ going munches long consumes sorts =>
    cases sorts with
    | token => exact sealed.same going rfl
    | blank => exact sealed.same going rfl
    | comment _ skipped =>
      have free : ({ l with stuck := false } : Lexer).Exact text null := exact.congr rfl rfl
      obtain ⟨_, _, l₂, _, _, skipped', outcome⟩ :=
        skips_of_exact flavor l.origin (free.consumes going long consumes)
      cases skipped.symm.trans skipped'
      obtain ⟨_, _, _, same⟩ | ⟨_, _, pushed, ended⟩ := outcome
      · exact sealed.same going same
      · exact sealed.push going pushed fun _ => ended
    | strayEnd => exact sealed.push going rfl fun other => by cases other

/-- A call in which an unterminated comment is recorded, or that comes behind one, returns the end
of text. -/
theorem Sealed.call (sealed : Sealed ds l) (exact : l.Exact text null)
    (call : Lexer.Call (grammar flavor) afterError l stretches t l') :
    Sealed ds l' ∧ ((∃ d ∈ ds ++ l'.diagnostics.toList, d.message.key = .unterminatedComment) →
      t.isEnd = true) := by
  have sound := Grammar.sound_of_check (check_grammar flavor)
  induction call with
  | @ended afterError l t ends =>
    have turn := (yields_step sound exact.faithful _).holds ends
    cases turn
    exact ⟨sealed, fun _ => rfl⟩
  | @token afterError l next t takes =>
    have turn := (yields_step sound exact.faithful _).holds takes
    refine ⟨sealed.takes exact turn, fun ⟨d, mem, key⟩ => ?_⟩
    cases turn with
    | matched going _ _ _ sorts =>
      cases sorts with
      | token =>
        -- Nothing is recorded with the token, and in front of it the text has not ended.
        obtain ⟨front, rest, whole⟩ := List.append_of_mem mem
        have ended := (sealed front d rest whole key).2
        rw [going] at ended
        cases ended
  | @passes afterError l next _ _ _ _ takes _ _ ih =>
    have turn := (yields_step sound exact.faithful _).holds takes
    exact ih (sealed.takes exact turn) (exact.takes sound turn).1

theorem sealed_session {ts : List Token}
    (session : Session (grammar flavor) (.ofText text null) ts ds l) :
    Sealed ds l ∧ ((∃ d ∈ ds ++ l.diagnostics.toList, d.message.key = .unterminatedComment) →
      ∃ front t, ts = front ++ [t] ∧ t.isEnd = true) := by
  have sound := Grammar.sound_of_check (check_grammar flavor)
  induction session with
  | start => exact ⟨fun _ _ _ whole => by simp [Lexer.start] at whole, by simp [Lexer.start]⟩
  | next session delivers ih =>
    obtain ⟨_, cut⟩ := call_of_nextFrom delivers
    obtain ⟨sealed, ended⟩ := ih.1.call (session.exact sound).1 cut
    exact ⟨sealed, fun told => ⟨_, _, rfl, ended told⟩⟩
  | @take ts ds l _ ih =>
    have same : ds ++ l.takeDiagnostics.1 ++ l.takeDiagnostics.2.diagnostics.toList =
        ds ++ l.diagnostics.toList := by simp [takeDiagnostics]
    unfold Sealed at ih ⊢
    rw [same]
    exact ih

end Records

section Silence

variable {t : Token} {ids : List UInt32} {source : Source}

theorem reservesEnd (flavor : Flavor) : (grammar flavor).ReservesEnd := by
  have other : ∀ s ∈ lexer.states, s.recognized ≠ .token endOfText := by decide +kernel
  exact fun s mem recognized => absurd recognized (other s mem)

/-- Where the tokens up to the end of text come without a diagnostic, none comes behind them. -/
theorem quiet_nextMany (quiet : Quiet (grammar flavor) t l ids) (faithful : l.cursor.Faithful)
    (clean : l.diagnostics = #[]) (last : t.isEnd = true → (l.cursor.ahead 0).isEnd = true)
    {n : Nat} {us : List Token} (many : l.nextMany (grammar flavor) n = .ok (us, l')) :
    l'.diagnostics = #[] := by
  have sound := Grammar.sound_of_check (check_grammar flavor)
  induction quiet generalizing n us with
  | ended ended =>
    induction n generalizing us with
    | zero =>
      cases many
      exact clean
    | succ n ih =>
      rw [nextMany, next_of_ended faithful (last ended), ok_bind] at many
      obtain ⟨⟨_, _⟩, later, same⟩ := bind_eq_ok_iff.1 many
      cases same
      exact ih later
  | more going next clean' _ ih =>
    cases n with
    | zero =>
      cases many
      exact clean
    | succ n =>
      rw [nextMany, next, ok_bind] at many
      obtain ⟨⟨_, _⟩, later, same⟩ := bind_eq_ok_iff.1 many
      cases same
      obtain ⟨_, cut⟩ := call_of_nextFrom next
      have faithful' := ((yields_next sound faithful).holds next).leads.faithful
      exact ih faithful' clean'
        (fun ends => (ended_of_call sound (reservesEnd flavor) faithful cut ends).1) later

theorem session_silent (starts : (Lexer.start source).Starts (grammar flavor) ids)
    {ts : List Token} {ds : List Diagnostic} (session : Session (grammar flavor) source ts ds l) :
    ds = [] ∧ ∀ n us l', l.nextMany (grammar flavor) n = .ok (us, l') → l'.diagnostics = #[] := by
  have sound := Grammar.sound_of_check (check_grammar flavor)
  induction session with
  | start =>
    refine ⟨rfl, fun n us l' many => ?_⟩
    obtain ⟨t, l₁, first, clean, quiet⟩ := starts
    cases n with
    | zero =>
      cases many
      rfl
    | succ n =>
      rw [nextMany, first, ok_bind] at many
      obtain ⟨⟨_, _⟩, later, same⟩ := bind_eq_ok_iff.1 many
      cases same
      have faithful := Cursor.faithful_start source
      obtain ⟨_, cut⟩ := call_of_nextFrom first
      have faithful' :=
        ((yields_next sound (l := Lexer.start source) faithful).holds first).leads.faithful
      exact quiet_nextMany quiet faithful' clean
        (fun ends => (ended_of_call (l := Lexer.start source) sound (reservesEnd flavor) faithful
          cut ends).1) later
  | @next _ _ l l' t _ delivers ih =>
    refine ⟨ih.1, fun n us l'' many => ih.2 (n + 1) (t :: us) l'' ?_⟩
    rw [nextMany, delivers, ok_bind]
    dsimp only
    rw [many]
    rfl
  | @take _ ds l _ ih =>
    have none : l.diagnostics = #[] := ih.2 0 [] l rfl
    have same : l.takeDiagnostics = ([], l) := by
      cases l
      cases none
      rfl
    rw [same]
    exact ⟨by rw [ih.1]; rfl, ih.2⟩

end Silence

end Samples.Calculator

open Samples.Calculator Lexer

/-- Nested comments of the calculator are skipped exactly. Behind a mark that starts one, the lexer
skips the shortest stretch that closes it and reports nothing, or everything up to the end of the
text and reports the mark once. So a diagnostic about an unterminated comment is the last one of a
session and comes with the end of text, and no parse of the text is without an error. -/
theorem comments_are_skipped_exactly (flavor : Flavor) (text : String) (null : Bool) :
    (∀ {afterError l l₁}, Seeks (grammar flavor) (.ofText text null) afterError l →
      Opens (grammar flavor) l l₁ → ∃ x y l₂, text.toList = x ++ y ∧ l₁.origin = .behind x ∧
        skipComment (grammar flavor) l.origin l₁.turns 1 l₁ = .ok l₂ ∧
        ((∃ p, Closes 1 (upToNull y) p ∧ l₂.origin = .behind (x ++ p) ∧
            l₂.diagnostics = l₁.diagnostics) ∨
          (∀ q, q <+: upToNull y → 1 + balance q ≠ 0) ∧ l₂.origin = .behind (x ++ upToNull y) ∧
            l₂.diagnostics = l₁.diagnostics.push ⟨l.origin, ⟨.unterminatedComment, []⟩⟩)) ∧
    ∀ {ts ds l d}, Session (grammar flavor) (.ofText text null) ts ds l →
      d ∈ ds ++ l.diagnostics.toList → d.message.key = .unterminatedComment →
      (∃ front, ds ++ l.diagnostics.toList = front ++ [d] ∧
        ∀ d' ∈ front, d'.message.key ≠ .unterminatedComment) ∧
      (∃ front t, ts = front ++ [t] ∧ t.isEnd = true) ∧
      ∀ {σ V : Type} (control : Control) (h : Host σ V) (options : Options) (fuel : Nat) (host : σ)
        (outcome : Outcome σ V), parseUnder control (grammar flavor) h options fuel
          (.ofText text null) host = .ok (some outcome) → outcome.ok = false := by
  have sound := Grammar.sound_of_check (check_grammar flavor)
  refine ⟨fun {afterError l l₁} seeks opens => ?_, fun {ts ds l d} session mem key => ?_⟩
  · obtain ⟨x, y, l₂, whole, place, skipped, closes | ⟨never, place', told, _⟩⟩ :=
      skips_of_exact flavor l.origin (exact_of_opens sound (seeks.exact sound) opens)
    · exact ⟨x, y, l₂, whole, place, skipped, .inl closes⟩
    · exact ⟨x, y, l₂, whole, place, skipped, .inr ⟨never, place', told⟩⟩
  · obtain ⟨sealed, ended⟩ := sealed_session session
    refine ⟨?_, ended ⟨d, mem, key⟩, fun control h options fuel host outcome ends => ?_⟩
    · obtain ⟨front, rest, whole⟩ := List.append_of_mem mem
      obtain ⟨rfl, _⟩ := sealed front d rest whole key
      refine ⟨front, whole, fun d' mem' key' => ?_⟩
      obtain ⟨front', rest', rfl⟩ := List.append_of_mem mem'
      rw [List.append_assoc, List.cons_append] at whole
      have none := (sealed front' d' _ whole key').1
      simp at none
    · refine Bool.eq_false_iff.2 fun ok => ?_
      obtain ⟨ids, starts⟩ := starts_of_ok sound ((chart_fits flavor).endsLast sound) ends ok
      obtain ⟨rfl, silent⟩ := session_silent starts session
      rw [silent 0 [] l rfl] at mem
      cases mem

/-- Marks do not overlap: the star of a mark that opens is not part of one that closes, so this
comment is still open in the end. -/
theorem overlapping_marks_leave_comment_open :
    (∃ l l₁ x y, Seeks (grammar .hard) (.ofText "2/* /*/*/ */" false) false l ∧
      Opens (grammar .hard) l l₁ ∧ "2/* /*/*/ */".toList = x ++ y ∧ l₁.origin = .behind x ∧
      ∀ q, q <+: upToNull y → 1 + balance q ≠ 0) ∧
    ∃ t t' l d, Session (grammar .hard) (.ofText "2/* /*/*/ */" false) [t, t'] [] l ∧
      l.diagnostics.toList = [d] ∧ d.origin = ⟨1, 1, 2⟩ ∧ t'.isEnd = true ∧
      ∀ fuel outcome, parseUnder .initial (grammar .hard) host .default fuel
        (.ofText "2/* /*/*/ */" false) (Machine.start false) = .ok (some outcome) →
          outcome.ok = false := by
  obtain ⟨skips, reports⟩ := comments_are_skipped_exactly .hard "2/* /*/*/ */" false
  constructor
  · have opened : (do
        let first ← (Lexer.start (.ofText "2/* /*/*/ */" false)).next (grammar .hard)
        let ended ← first.2.cursor.atEnd
        let scanned ← first.2.scan lexer
        let m ← scanned.1.elim (.error .exhausted) .ok
        let l₂ ← { scanned.2 with stuck := false }.consume m.length
        let l₃ ← skipComment (grammar .hard) first.2.origin l₂.turns 1 l₂
        return (ended, m.recognized, l₂.diagnostics.size, l₃.diagnostics.size)).toOption =
          some (false, .commentStart, 0, 1) := by
      decide +kernel
    obtain ⟨⟨t, l⟩, first, rest⟩ := bind_eq_ok_iff.1 (eq_ok_of_toOption opened)
    obtain ⟨ended, atEnd, rest⟩ := bind_eq_ok_iff.1 rest
    obtain ⟨⟨found, l₁⟩, scanned, rest⟩ := bind_eq_ok_iff.1 rest
    obtain ⟨m, matched, rest⟩ := bind_eq_ok_iff.1 rest
    obtain ⟨l₂, consumed, rest⟩ := bind_eq_ok_iff.1 rest
    obtain ⟨l₃, skipped, same⟩ := bind_eq_ok_iff.1 rest
    simp only [pure, Except.pure, Except.ok.injEq, Prod.mk.injEq] at same
    obtain ⟨rfl, recognized, before, behind⟩ := same
    obtain rfl : found = some m := by
      cases found with
      | none => cases matched
      | some m' =>
        cases matched
        rfl
    have seeks := Seeks.call (Session.start.next first)
    have opens : Opens (grammar .hard) l l₂ := ⟨m, l₁, atEnd, scanned, recognized, consumed⟩
    obtain ⟨x, y, l₃', whole, place, skipped', ⟨_, _, _, told⟩ | ⟨never, _⟩⟩ := skips seeks opens
    · cases skipped.symm.trans skipped'
      rw [told, before] at behind
      cases behind
    · exact ⟨l, l₂, x, y, seeks, opens, whole, place, never⟩
  · have delivered : ((Lexer.start (.ofText "2/* /*/*/ */" false)).nextMany (grammar .hard)
        2).toOption.map (fun r => r.2.diagnostics.toList) =
          some [⟨⟨1, 1, 2⟩, ⟨.unterminatedComment, []⟩⟩] := by
      decide +kernel
    obtain ⟨⟨us, l⟩, found, shown⟩ := Option.map_eq_some_iff.1 delivered
    obtain ⟨⟨t, l₁⟩, first, rest⟩ := bind_eq_ok_iff.1 (eq_ok_of_toOption found)
    obtain ⟨⟨_, _⟩, later, same⟩ := bind_eq_ok_iff.1 rest
    cases same
    obtain ⟨⟨t', l₂⟩, second, rest⟩ := bind_eq_ok_iff.1 later
    cases rest
    have session := (Session.start.next first).next second
    dsimp only at shown
    obtain ⟨_, ⟨front, last, tokens, ended⟩, never⟩ := reports session
      (d := ⟨⟨1, 1, 2⟩, ⟨.unterminatedComment, []⟩⟩) (by simp [shown]) rfl
    obtain ⟨_, same⟩ := List.append_inj' tokens rfl
    cases same
    exact ⟨t, t', _, _, session, shown, rfl, ended, fun fuel outcome ends =>
      never .initial host .default fuel _ outcome ends⟩

end GrammarMachine
