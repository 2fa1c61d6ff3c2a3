import GrammarMachine.Proofs.Lexer.Sessions
import GrammarMachine.Samples.Keyword
import Mathlib.Data.List.Forall2
import Mathlib.Data.List.SplitBy

/-!
Unreadable characters are reported once a run. A session cuts its text into matched stretches and
single characters that nothing matches; the reports about unexpected characters are those of the
maximal runs of such characters, and a token tells whether something unreadable stands between it
and the token before.
-/

namespace GrammarMachine

section Groups

variable {α : Type} {r : α → α → Bool} {xs : List α} {x y : α}

/-- An element that is related to the last one joins its group. -/
theorem splitBy_concat_of_related (last : xs.getLast? = some y) (related : r y x = true) :
    ∃ gs g, xs.splitBy r = gs ++ [g] ∧ g.getLast? = some y ∧
      (xs ++ [x]).splitBy r = gs ++ [g ++ [x]] := by
  have inhabited : xs ≠ [] := by
    rintro rfl
    cases last
  obtain ⟨gs, g, groups⟩ := (List.eq_nil_or_concat' (xs.splitBy r)).resolve_left
    (List.splitBy_ne_nil.2 inhabited)
  obtain ⟨whole, filled, chains, apart⟩ := List.splitBy_eq_iff.1 groups
  have nonempty : g ≠ [] := by
    rintro rfl
    exact filled (by simp)
  have final : g.getLast? = some y := by
    rw [← last, whole, List.flatten_append, List.flatten_singleton,
      List.getLast?_append_of_ne_nil _ nonempty]
  obtain ⟨others, chain⟩ := List.forall_mem_append.1 chains
  obtain ⟨apart, -, border⟩ := List.isChain_append.1 apart
  refine ⟨gs, g, groups, final, List.splitBy_eq_iff.2 ⟨?_, ?_, ?_, ?_⟩⟩
  · rw [whole]
    simp
  · simp only [List.mem_append, List.mem_singleton, not_or] at filled ⊢
    exact ⟨filled.1, by simp⟩
  · refine List.forall_mem_append.2 ⟨others, List.forall_mem_singleton.2 ?_⟩
    refine List.isChain_append.2 ⟨List.forall_mem_singleton.1 chain, .singleton x, ?_⟩
    rintro z here _ ⟨rfl⟩
    cases final.symm.trans here
    exact related
  · refine List.isChain_append.2 ⟨apart, .singleton _, ?_⟩
    rintro a here _ ⟨rfl⟩
    obtain ⟨filled, _, unrelated⟩ := border a here g rfl
    refine ⟨filled, by simp, ?_⟩
    rwa [List.head_append_of_ne_nil nonempty]

end Groups

namespace Lexer

/-- Nothing is matched there. -/
def Stretch.unmatched (s : Stretch) : Bool := s.piece == .unmatched

/-- The maximal runs of unmatched characters among stretches in a row. -/
def runs (ss : List Stretch) : List (List Stretch) :=
  (ss.splitBy fun s s' => s.unmatched == s'.unmatched).filter fun run => run.all Stretch.unmatched

variable {ss : List Stretch} {s : Stretch}

/-- Stretches of one kind in a row are all of the kind of the last. -/
theorem all_unmatched_of_isChain {g : List Stretch} {y : Stretch}
    (chain : g.IsChain fun s s' => (s.unmatched == s'.unmatched) = true)
    (last : g.getLast? = some y) : g.all Stretch.unmatched = y.unmatched := by
  obtain ⟨front, rfl⟩ := List.getLast?_eq_some_iff.1 last
  have alike : ∀ s ∈ front ++ [y], s.unmatched = y.unmatched := by
    refine chain.backwards_induction _ _ (fun s s' same alike => ?_) fun _ => ?_
    · exact (eq_of_beq same).trans alike
    · rw [List.getLast_concat]
  cases kind : y.unmatched with
  | true => exact List.all_eq_true.2 fun s mem => (alike s mem).trans kind
  | false => exact List.all_eq_false.2 ⟨y, by simp, by simp [kind]⟩

/-- Of another kind than the last one, a stretch stands in a group of its own. -/
theorem runs_concat_of_apart
    (apart : ∀ y ∈ ss.getLast?, (y.unmatched == s.unmatched) = false) :
    runs (ss ++ [s]) = runs ss ++ if s.unmatched then [[s]] else [] := by
  unfold runs
  rw [List.splitBy_append_cons _ apart, List.filter_append]
  cases kind : s.unmatched <;> simp [List.splitBy, List.splitBy.loop, kind]

/-- Of the same kind as the last one, a stretch begins no run. -/
theorem heads_runs_concat_of_alike {y : Stretch} (last : ss.getLast? = some y)
    (alike : y.unmatched = s.unmatched) :
    (runs (ss ++ [s])).map List.head? = (runs ss).map List.head? := by
  obtain ⟨gs, g, groups, final, grown⟩ := splitBy_concat_of_related
    (r := fun s s' => s.unmatched == s'.unmatched) last (beq_iff_eq.2 alike)
  have mem : g ∈ ss.splitBy fun s s' => s.unmatched == s'.unmatched := by simp [groups]
  have kind := all_unmatched_of_isChain (List.isChain_of_mem_splitBy mem) final
  have heads : (g ++ [s]).head? = g.head? :=
    List.head?_append_of_ne_nil _ (List.ne_nil_of_mem_splitBy mem)
  unfold runs
  rw [groups, grown, List.filter_append, List.filter_append, List.map_append, List.map_append]
  cases unmatched : s.unmatched <;> simp [kind, alike, unmatched, heads]

/-- What is matched ends a run, and an unmatched character begins one unless it goes on with it. -/
theorem heads_runs_concat (ss : List Stretch) (s : Stretch) :
    (runs (ss ++ [s])).map List.head? = (runs ss).map List.head? ++
      if s.unmatched && !ss.getLast?.any Stretch.unmatched then [some s] else [] := by
  cases last : ss.getLast? with
  | none =>
    rw [runs_concat_of_apart (by simp [last])]
    cases s.unmatched <;> simp
  | some y =>
    by_cases alike : y.unmatched = s.unmatched
    · rw [heads_runs_concat_of_alike last alike]
      simp [alike]
    · have other : y.unmatched = !s.unmatched := Bool.eq_not.2 alike
      rw [runs_concat_of_apart (by simpa [last] using alike)]
      cases kind : s.unmatched <;> simp [other, kind]

/-- The codes that a source shows from a position on. -/
def codes (source : Source) (p i : Nat) : Int32 := (source.readAt (source.reach p i)).code

/-- In front of the end of text, the lexical automaton finds the match `m`, which is not empty. -/
structure Finds (g : Grammar) (source : Source) (p : Nat) (m : Match) : Prop where
  going : (source.readAt p).isEnd = false
  munches : g.lexer.Munches (codes source p) 0 m
  long : 0 < m.length

/-- The stretch is what the lexical automaton makes of the text at its place. -/
inductive Fits (g : Grammar) (source : Source) : Stretch → Prop
  | unmatched {o : Origin} {stop : Nat} (going : (source.readAt o.pos).isEnd = false)
      (nothing : ∀ m, g.lexer.Munches (codes source o.pos) 0 m → m.length = 0)
      (behind : stop = source.reach o.pos 1) : Fits g source ⟨.unmatched, o, stop⟩
  | token {t : Token} {m : Match} {info : TokenInfo} {stop : Nat}
      (finds : Finds g source t.origin.pos m) (recognized : m.recognized = .token t.id)
      (known : g.token? t.id = some info) (significant : info.significant = true)
      (behind : stop = source.reach t.origin.pos m.length) :
      Fits g source ⟨.token t, t.origin, stop⟩
  | blank {o : Origin} {m : Match} {id : UInt32} {stop : Nat} (finds : Finds g source o.pos m)
      (recognized : m.recognized = .token id)
      (dropped : ∀ info, g.token? id = some info → info.significant = false)
      (behind : stop = source.reach o.pos m.length) : Fits g source ⟨.blank, o, stop⟩
  | comment {o : Origin} {m : Match} {stop : Nat} (finds : Finds g source o.pos m)
      (recognized : m.recognized = .commentStart) (behind : source.reach o.pos m.length ≤ stop) :
      Fits g source ⟨.comment, o, stop⟩
  | strayEnd {o : Origin} {m : Match} {stop : Nat} (finds : Finds g source o.pos m)
      (recognized : m.recognized = .commentEnd) (behind : stop = source.reach o.pos m.length) :
      Fits g source ⟨.strayEnd, o, stop⟩

/-- The stretches lie side by side from `p` to `q`. -/
def Tiles : Nat → List Stretch → Nat → Prop
  | p, [], q => p = q
  | p, s :: ss, q => s.origin.pos = p ∧ Tiles s.stop ss q

theorem Tiles.concat {p q : Nat} (tiles : Tiles p ss q) (here : s.origin.pos = q) :
    Tiles p (ss ++ [s]) s.stop := by
  induction ss generalizing p with
  | nil => exact ⟨here.trans tiles.symm, rfl⟩
  | cons s' ss ih => exact ⟨tiles.1, ih tiles.2⟩

/-- The reports of unexpected characters. -/
def unexpected (ds : List Diagnostic) : List Diagnostic :=
  ds.filter fun d => d.message.key == .unexpectedChar

/-- How the character is reported with which a run begins. -/
def report (source : Source) (s : Stretch) : Diagnostic :=
  ⟨s.origin, ⟨.unexpectedChar, [describe (source.readAt s.origin.pos).code]⟩⟩

/-- A session, with the stretches that each of its calls takes off the text. -/
inductive Cuts (g : Grammar) (source : Source) :
    List (List Stretch) → List Token → List Diagnostic → Lexer → Prop
  | start : Cuts g source [] [] [] (start source)
  | next {cuts : List (List Stretch)} {ts : List Token} {ds : List Diagnostic} {l l' : Lexer}
      {cut : List Stretch} {t : Token} (before : Cuts g source cuts ts ds l)
      (call : Call g false l cut t l') : Cuts g source (cuts ++ [cut]) (ts ++ [t]) ds l'
  | take {cuts : List (List Stretch)} {ts : List Token} {ds : List Diagnostic} {l : Lexer}
      (before : Cuts g source cuts ts ds l) :
      Cuts g source cuts ts (ds ++ l.takeDiagnostics.1) l.takeDiagnostics.2

variable {g : Grammar} {source : Source} {ts : List Token} {ds : List Diagnostic}
  {l l' next : Lexer} {afterError : Bool} {piece : Piece} {t : Token}

theorem Session.cuts (session : Session g source ts ds l) :
    ∃ cuts, Cuts g source cuts ts ds l := by
  induction session with
  | start => exact ⟨[], .start⟩
  | next _ delivers ih =>
    obtain ⟨cuts, before⟩ := ih
    obtain ⟨cut, call⟩ := call_of_nextFrom delivers
    exact ⟨cuts ++ [cut], before.next call⟩
  | take _ ih =>
    obtain ⟨cuts, before⟩ := ih
    exact ⟨cuts, before.take⟩

/-- A turn takes off what the automaton finds. -/
theorem fits_of_takes (sound : g.Sound) (stands : l.Stands source)
    (takes : Takes g afterError l (.takes piece next)) : Fits g source (stretch piece l next) := by
  obtain ⟨faithful, rfl⟩ := stands
  cases takes with
  | unmatched going nothing consumes =>
    obtain ⟨_, _, pos⟩ := consumes.along going
    exact .unmatched going nothing pos
  | @matched m c _ _ going munches long consumes sorts =>
    obtain ⟨faithful', _, pos⟩ := consumes.along going
    have finds : Finds g l.cursor.reader.source l.origin.pos m := ⟨going, munches, long⟩
    cases sorts with
    | token recognized known significant => exact .token finds recognized known significant pos
    | blank recognized dropped => exact .blank finds recognized dropped pos
    | comment recognized skipped =>
      have root := comments_of_munches sound munches recognized
      have leads := leads_of_skipped sound root faithful' skipped
      exact .comment finds recognized (pos ▸ leads.pos)
    | strayEnd recognized => exact .strayEnd finds recognized pos

/-- Reports of another kind do not count. -/
theorem unexpected_diagnose (l : Lexer) (o : Origin) (key : Key) (args : List String) :
    unexpected (l.diagnose o key args).diagnostics.toList =
      unexpected l.diagnostics.toList ++ unexpected [⟨o, ⟨key, args⟩⟩] := by
  rw [diagnose, Array.toList_push, unexpected, List.filter_append]
  rfl

/-- An unmatched character is reported unless the one in front of it is unmatched, and nothing else
that a turn takes off is reported so. -/
theorem told_of_takes (sound : g.Sound) (stands : l.Stands source)
    (takes : Takes g afterError l (.takes piece next)) :
    next.stuck = (stretch piece l next).unmatched ∧
      unexpected next.diagnostics.toList = unexpected l.diagnostics.toList ++
        if (stretch piece l next).unmatched && !l.stuck then
          [report source (stretch piece l next)] else [] := by
  obtain ⟨faithful, rfl⟩ := stands
  cases takes with
  | unmatched going nothing consumes =>
    unfold tellUnexpected
    cases stuck : l.stuck with
    | true => exact ⟨stuck, by simp⟩
    | false => exact ⟨rfl, unexpected_diagnose _ _ _ _⟩
  | @matched m c _ _ going munches long consumes sorts =>
    have faithful' := (consumes.along going).1
    cases sorts with
    | token => exact ⟨rfl, by simp [stretch, Stretch.unmatched]⟩
    | blank => exact ⟨rfl, by simp [stretch, Stretch.unmatched]⟩
    | comment recognized skipped =>
      obtain ⟨c', _, rfl | rfl⟩ := moves_skipComment sound
        (comments_of_munches sound munches recognized) faithful' Nat.one_pos skipped
      · exact ⟨rfl, by simp [stretch, Stretch.unmatched]⟩
      · exact ⟨rfl, unexpected_diagnose _ _ _ _⟩
    | strayEnd => exact ⟨rfl, unexpected_diagnose _ _ _ _⟩

/-- What has been reported belongs to the runs among the stretches behind the lexer, and it is stuck
within the last of them. -/
structure Booked (g : Grammar) (source : Source) (ss : List Stretch) (ds : List Diagnostic)
    (l : Lexer) : Prop where
  stands : l.Stands source
  tiles : Tiles source.start ss l.origin.pos
  fits : ∀ s ∈ ss, Fits g source s
  stuck : l.stuck = ss.getLast?.any Stretch.unmatched
  reported : ((runs ss).map List.head?).map (Option.map (report source)) =
    (unexpected (ds ++ l.diagnostics.toList)).map some

theorem booked_start (g : Grammar) (source : Source) :
    Booked g source [] [] (start source) :=
  ⟨stands_start source, rfl, nofun, rfl, rfl⟩

theorem Booked.takes (sound : g.Sound) (booked : Booked g source ss ds l)
    (takes : Takes g afterError l (.takes piece next)) :
    Booked g source (ss ++ [stretch piece l next]) ds next := by
  obtain ⟨stands, tiles, fits, stuck, reported⟩ := booked
  have fits' := fits_of_takes sound stands takes
  obtain ⟨stuck', told⟩ := told_of_takes sound stands takes
  refine ⟨stands.leads (passes_of_takes sound takes).toLeads, tiles.concat rfl,
    List.forall_mem_append.2 ⟨fits, List.forall_mem_singleton.2 fits'⟩, ?_, ?_⟩
  · rw [stuck', List.getLast?_concat, Option.any_some]
  · rw [unexpected, List.filter_append, List.map_append] at reported ⊢
    rw [heads_runs_concat, List.map_append, reported, List.append_assoc]
    change _ = _ ++ (unexpected next.diagnostics.toList).map some
    rw [told, List.map_append, ← stuck]
    congr 2
    split <;> rfl

/-- The token comes behind stretches none of which is a token, or the text ends there; and it tells
whether something unreadable is among them. -/
def Brings (cut : List Stretch) (t : Token) : Prop :=
  ∃ front last, cut = front ++ last ∧ (∀ s ∈ front, ∀ u, s.piece ≠ .token u) ∧
    (last = [] ∧ t.isEnd = true ∨ ∃ s, last = [s] ∧ s.piece = .token t) ∧
    (t.error = true ↔ ∃ s ∈ front, s.piece = .unmatched ∨ s.piece = .strayEnd)

theorem Piece.spoils_iff : piece.spoils = true ↔ piece = .unmatched ∨ piece = .strayEnd := by
  cases piece <;> simp [spoils]

/-- A call books what its turns take off, and its token tells what is among that. -/
theorem Booked.call (sound : g.Sound) (booked : Booked g source ss ds l) {cut : List Stretch}
    (call : Call g afterError l cut t l') :
    Booked g source (ss ++ cut) ds l' ∧
      ∃ front last, cut = front ++ last ∧ (∀ s ∈ front, ∀ u, s.piece ≠ .token u) ∧
        (last = [] ∧ t.isEnd = true ∨ ∃ s, last = [s] ∧ s.piece = .token t) ∧
        t.error = (afterError || front.any fun s => s.piece.spoils) := by
  induction call generalizing ss with
  | @ended afterError l t ends =>
    have turn := (yields_step sound booked.stands.faithful _).holds ends
    cases turn
    rw [List.append_nil]
    exact ⟨booked, [], [], rfl, nofun, .inl ⟨rfl, rfl⟩, (Bool.or_false _).symm⟩
  | @token afterError l next t takes =>
    have turn := (yields_step sound booked.stands.faithful _).holds takes
    refine ⟨booked.takes sound turn, [], [_], rfl, nofun, .inr ⟨_, rfl, rfl⟩, ?_⟩
    rw [List.any_nil, Bool.or_false]
    cases turn with
    | matched _ _ _ _ sorts =>
      cases sorts
      rfl
  | @passes afterError l next l' t piece cut takes other _ ih =>
    have turn := (yields_step sound booked.stands.faithful _).holds takes
    obtain ⟨booked', front, last, rfl, others, ends, error⟩ := ih (booked.takes sound turn)
    rw [List.append_assoc] at booked'
    refine ⟨booked', stretch piece l next :: front, last, rfl,
      List.forall_mem_cons.2 ⟨other, others⟩, ends, ?_⟩
    rw [error, List.any_cons, Bool.or_assoc]
    rfl

theorem Cuts.booked (sound : g.Sound) {cuts : List (List Stretch)}
    (session : Cuts g source cuts ts ds l) :
    Booked g source cuts.flatten ds l ∧ List.Forall₂ Brings cuts ts := by
  induction session with
  | start => exact ⟨booked_start g source, .nil⟩
  | next _ call ih =>
    obtain ⟨booked, brings⟩ := ih
    obtain ⟨booked', front, last, whole, others, ends, error⟩ := booked.call sound call
    rw [List.flatten_concat]
    refine ⟨booked', List.rel_append brings (.cons ⟨front, last, whole, others, ends, ?_⟩ .nil)⟩
    rw [error, Bool.false_or, List.any_eq_true]
    simp only [Piece.spoils_iff]
  | take _ ih =>
    obtain ⟨⟨stands, tiles, fits, stuck, reported⟩, brings⟩ := ih
    refine ⟨⟨⟨stands.faithful, stands.source⟩, tiles, fits, stuck, ?_⟩, brings⟩
    rw [takeDiagnostics, List.append_nil]
    exact reported

end Lexer

open Lexer

/-- Unexpected characters are reported once a run. The calls of a session cut the text in front of
the lexer into stretches, matched ones and single characters at which nothing is matched; the
reports of unexpected characters are, one for one and in order, those of the maximal runs of such
characters, each at the first of them and showing it. A token tells whether an unmatched character
or the end of a comment that was not open lies between it and the token before. -/
theorem garbage_is_reported_once_per_run {g : Grammar} (valid : g.check = .ok ()) {source : Source}
    {ts : List Token} {ds : List Diagnostic} {l : Lexer} (session : Session g source ts ds l) :
    ∃ cuts, Cuts g source cuts ts ds l ∧ Tiles source.start cuts.flatten l.origin.pos ∧
      (∀ s ∈ cuts.flatten, Fits g source s) ∧
      List.Forall₂ (fun run d => run.head?.map (report source) = some d) (runs cuts.flatten)
        (unexpected (ds ++ l.diagnostics.toList)) ∧
      List.Forall₂ Brings cuts ts := by
  obtain ⟨cuts, cut⟩ := session.cuts
  obtain ⟨booked, brings⟩ := cut.booked (Grammar.sound_of_check valid)
  refine ⟨cuts, cut, booked.tiles, booked.fits, ?_, brings⟩
  have reported := booked.reported
  rw [List.map_map, ← List.forall₂_eq_eq_eq, List.forall₂_map_left_iff,
    List.forall₂_map_right_iff] at reported
  exact reported

/-- Two runs in front of a keyword, one of them of two characters. -/
theorem keyword_behind_two_runs_is_flagged :
    Samples.Keyword.grammar.check = .ok () ∧ ∃ t l cuts,
      Session Samples.Keyword.grammar (.ofText "é éü if(" false) [t] [] l ∧
      List.Forall₂ Brings cuts [t] ∧ t.error = true ∧ (runs cuts.flatten).length = 2 ∧
      (unexpected l.diagnostics.toList).map Diagnostic.origin = [⟨0, 1, 1⟩, ⟨3, 1, 3⟩] := by
  have valid : Samples.Keyword.grammar.check = .ok () := eq_ok_of_toOption (by decide +kernel)
  have delivered :
      ((Lexer.start (.ofText "é éü if(" false)).next Samples.Keyword.grammar).toOption.map
      (fun r => (r.1.error, (unexpected r.2.diagnostics.toList).map Diagnostic.origin)) =
        some (true, [⟨0, 1, 1⟩, ⟨3, 1, 3⟩]) := by
    decide +kernel
  obtain ⟨⟨t, l⟩, found, same⟩ := Option.map_eq_some_iff.1 delivered
  obtain ⟨error, places⟩ := Prod.mk.inj same
  have session := Session.start.next (eq_ok_of_toOption found)
  obtain ⟨cuts, _, _, _, reported, brings⟩ := garbage_is_reported_once_per_run valid session
  refine ⟨valid, t, l, cuts, session, brings, error, ?_, places⟩
  rw [reported.length_eq, List.nil_append, ← List.length_map Diagnostic.origin, places]
  rfl

end GrammarMachine
