import GrammarMachine.Proofs.Lexer.Sessions
import GrammarMachine.Proofs.Parse.Inversion
import GrammarMachine.Proofs.Parse.Stopping

/-!
Errors in the order of the text. A turn of the lexer reports at the place where it starts, and the
next one starts further on, so that all that is reported on the way to a token stands in front of
it, comments that never close included. The parser reports at its lookahead, as often as it likes,
and reading on leaves that behind. Between two lookaheads there is only what was read to get from
one to the other, and so the places of a whole parse are in order.
-/

namespace GrammarMachine

open Evaluation

namespace Lexer

variable {g : Grammar} {l l' next : Lexer} {afterError : Bool} {piece : Piece} {t : Token}
  {p p' q : Nat} {ds : List Diagnostic}

/-- A turn reports at the place where it starts, if at all. -/
theorem reported_of_takes (sound : g.Sound) (takes : Takes g afterError l (.takes piece next)) :
    next.diagnostics = l.diagnostics ∨
      ∃ m, next.diagnostics = l.diagnostics.push ⟨l.origin, m⟩ := by
  cases takes with
  | unmatched =>
    unfold tellUnexpected
    split
    · exact .inl rfl
    · exact .inr ⟨_, rfl⟩
  | matched going munches long consumes sorts =>
    cases sorts with
    | token => exact .inl rfl
    | blank => exact .inl rfl
    | comment recognized skipped =>
      have faithful := (consumes.along going).1
      have root := comments_of_munches sound munches recognized
      obtain ⟨c', _, rfl | rfl⟩ := moves_skipComment sound root faithful Nat.one_pos skipped
      · exact .inl rfl
      · exact .inr ⟨_, rfl⟩
    | strayEnd => exact .inr ⟨_, rfl⟩

/-- Diagnostics at places further and further on, from `p` on and all in front of `q`. -/
structure Ascends (p : Nat) (ds : List Diagnostic) (q : Nat) : Prop where
  le : p ≤ q
  inside : ∀ d ∈ ds, p ≤ d.origin.pos ∧ d.origin.pos < q
  ordered : ds.Pairwise fun d d' => d.origin.pos < d'.origin.pos

theorem ascends_nil (le : p ≤ q) : Ascends p [] q := ⟨le, nofun, .nil⟩

theorem Ascends.from_before (ascends : Ascends p ds q) (le : p' ≤ p) : Ascends p' ds q where
  le := Nat.le_trans le ascends.le
  inside d mem := ⟨Nat.le_trans le (ascends.inside d mem).1, (ascends.inside d mem).2⟩
  ordered := ascends.ordered

theorem Ascends.cons {d : Diagnostic} (ascends : Ascends p ds q) (lt : d.origin.pos < p) :
    Ascends d.origin.pos (d :: ds) q where
  le := Nat.le_trans (Nat.le_of_lt lt) ascends.le
  inside := List.forall_mem_cons.2 ⟨⟨Nat.le_refl _, Nat.lt_of_lt_of_le lt ascends.le⟩,
    (ascends.from_before (Nat.le_of_lt lt)).inside⟩
  ordered := List.pairwise_cons.2
    ⟨fun d' mem => Nat.lt_of_lt_of_le lt (ascends.inside d' mem).1, ascends.ordered⟩

/-- What a call reports stands in order in front of the token that it returns. -/
theorem Call.reports (sound : g.Sound) {stretches : List Stretch}
    (call : Call g afterError l stretches t l') (faithful : l.cursor.Faithful) :
    ∃ ds, l'.diagnostics.toList = l.diagnostics.toList ++ ds ∧
      Ascends l.origin.pos ds t.origin.pos := by
  induction call with
  | ended ends =>
    cases (yields_step sound faithful _).holds ends
    exact ⟨[], (List.append_nil _).symm, ascends_nil (Nat.le_refl _)⟩
  | token takes =>
    cases (yields_step sound faithful _).holds takes with
    | matched _ _ _ _ sorts =>
      cases sorts
      exact ⟨[], (List.append_nil _).symm, ascends_nil (Nat.le_refl _)⟩
  | @passes afterError l next l' t piece stretches takes other rest ih =>
    have turn := (yields_step sound faithful _).holds takes
    have passes := passes_of_takes sound turn
    obtain ⟨ds, told, ascends⟩ := ih passes.faithful
    rcases reported_of_takes sound turn with silent | ⟨m, pushed⟩
    · rw [silent] at told
      exact ⟨ds, told, ascends.from_before (Nat.le_of_lt passes.pos_lt)⟩
    · rw [pushed, Array.toList_push, List.append_assoc] at told
      exact ⟨_, told, ascends.cons (d := ⟨l.origin, m⟩) passes.pos_lt⟩

end Lexer

variable {σ V : Type} {g : Grammar} {h : Host σ V} {options : Options}

section Places

variable {made more : List (Callback σ V)} {p p' q r : Nat}

/-- The places of the errors of some kinds that the host is told of, first one first. -/
def places (kinds : ErrorKind → Bool) (made : List (Callback σ V)) : List Nat :=
  made.filterMap fun callback =>
    match callback.contact with
    | .report kind origin _ => if kinds kind then some origin.pos else none
    | .call _ _ => none

def ErrorKind.isTextual (kind : ErrorKind) : Bool := kind != .semantic

def ErrorKind.isLexical (kind : ErrorKind) : Bool := kind == .lexical

/-- Errors in the text are told of in order from `p` on and up to `q`, those of the lexer each at a
place of its own in front of `q`. -/
structure Between (p : Nat) (made : List (Callback σ V)) (q : Nat) : Prop where
  le : p ≤ q
  textual : ∀ n ∈ places ErrorKind.isTextual made, p ≤ n ∧ n ≤ q
  lexical : ∀ n ∈ places ErrorKind.isLexical made, p ≤ n ∧ n < q
  ordered : (places ErrorKind.isTextual made).Pairwise (· ≤ ·)
  apart : (places ErrorKind.isLexical made).Pairwise (· < ·)

theorem Between.from_before (between : Between p made q) (le : p' ≤ p) : Between p' made q where
  le := Nat.le_trans le between.le
  textual n mem := ⟨Nat.le_trans le (between.textual n mem).1, (between.textual n mem).2⟩
  lexical n mem := ⟨Nat.le_trans le (between.lexical n mem).1, (between.lexical n mem).2⟩
  ordered := between.ordered
  apart := between.apart

theorem Between.append (first : Between p made q) (second : Between q more r) :
    Between p (made ++ more) r := by
  have split (kinds : ErrorKind → Bool) :
      places kinds (made ++ more) = places kinds made ++ places kinds more :=
    List.filterMap_append
  refine ⟨Nat.le_trans first.le second.le, ?_, ?_, ?_, ?_⟩
  · rw [split]
    refine List.forall_mem_append.2 ⟨fun n mem => ?_, (second.from_before first.le).textual⟩
    exact ⟨(first.textual n mem).1, Nat.le_trans (first.textual n mem).2 second.le⟩
  · rw [split]
    refine List.forall_mem_append.2 ⟨fun n mem => ?_, (second.from_before first.le).lexical⟩
    exact ⟨(first.lexical n mem).1, Nat.lt_of_lt_of_le (first.lexical n mem).2 second.le⟩
  · rw [split]
    refine List.pairwise_append.2 ⟨first.ordered, second.ordered, fun n mem m later => ?_⟩
    exact Nat.le_trans (first.textual n mem).2 (second.textual m later).1
  · rw [split]
    refine List.pairwise_append.2 ⟨first.apart, second.apart, fun n mem m later => ?_⟩
    exact Nat.lt_of_lt_of_le (first.lexical n mem).2 (second.lexical m later).1

theorem places_of_semantic {kinds : ErrorKind → Bool} (other : kinds .semantic = false)
    (semantic : ∀ callback ∈ made, callback.contact.kind = .semantic) : places kinds made = [] := by
  refine List.filterMap_eq_nil_iff.2 fun callback mem => ?_
  have kind := semantic callback mem
  cases contact : callback.contact with
  | call => rfl
  | report =>
    rw [contact, Contact.kind] at kind
    rw [kind]
    exact if_neg (by simp [other])

/-- Dealings that are all about semantics leave the place as it is. -/
theorem between_of_semantic (p : Nat)
    (semantic : ∀ callback ∈ made, callback.contact.kind = .semantic) : Between p made p := by
  have textual : places ErrorKind.isTextual made = [] := places_of_semantic rfl semantic
  have lexical : places ErrorKind.isLexical made = [] := places_of_semantic rfl semantic
  constructor
  · exact Nat.le_refl p
  · simp [textual]
  · simp [lexical]
  · simp [textual]
  · simp [lexical]

/-- A single syntax error. -/
theorem between_syntactic (m : Moment σ V) (o : Origin) (message : Message) :
    Between o.pos [⟨m, .report .syntactic o message⟩] o.pos where
  le := Nat.le_refl _
  textual := by simp [places, ErrorKind.isTextual]
  lexical := by simp [places, ErrorKind.isLexical]
  ordered := List.pairwise_singleton _ _
  apart := .nil

theorem places_reportCallbacks {kinds : ErrorKind → Bool} (lexical : kinds .lexical = true)
    (l : Lexer) (ds : List Diagnostic) (e : Evaluation σ V) :
    places kinds (reportCallbacks h l ds e) = ds.map fun d => d.origin.pos := by
  induction ds generalizing e with
  | nil => rfl
  | cons d rest ih =>
    rw [List.map_cons, ← ih (e.report h .lexical d.origin d.message)]
    simp only [places, reportCallbacks, List.filterMap_cons, lexical, if_true]

theorem between_reportCallbacks {ds : List Diagnostic} (ascends : Lexer.Ascends p ds q)
    (l : Lexer) (e : Evaluation σ V) : Between p (reportCallbacks h l ds e) q := by
  have textual : places ErrorKind.isTextual (reportCallbacks h l ds e) = _ :=
    places_reportCallbacks rfl l ds e
  have lexical : places ErrorKind.isLexical (reportCallbacks h l ds e) = _ :=
    places_reportCallbacks rfl l ds e
  constructor
  · exact ascends.le
  · rw [textual]
    refine List.forall_mem_map.2 fun d mem => ?_
    exact ⟨(ascends.inside d mem).1, Nat.le_of_lt (ascends.inside d mem).2⟩
  · rw [lexical]
    exact List.forall_mem_map.2 ascends.inside
  · rw [textual, List.pairwise_map]
    exact ascends.ordered.imp Nat.le_of_lt
  · rw [lexical, List.pairwise_map]
    exact ascends.ordered

/-- Reading on tells of what stands between the lexer and the token that is read. -/
theorem between_pull (sound : g.Sound) {l l' : Lexer} {e e' : Evaluation σ V} {t : Token}
    (faithful : l.cursor.Faithful) (taken : l.diagnostics = #[])
    (pulled : pull g h l e = .ok (t, l', e')) :
    Between l.cursor.pos (pullCallbacks g h l e) t.origin.pos ∧ l'.diagnostics = #[] := by
  obtain ⟨⟨t, l₁⟩, next, same⟩ := bind_eq_ok_iff.1 pulled
  cases same
  obtain ⟨_, call⟩ := Lexer.call_of_nextFrom next
  obtain ⟨ds, told, ascends⟩ := call.reports sound faithful
  rw [taken, List.nil_append] at told
  rw [pullCallbacks, next, telling_ok]
  dsimp only [Lexer.takeDiagnostics]
  rw [told]
  exact ⟨between_reportCallbacks ascends _ _, rfl⟩

end Places

namespace Config

variable {c c' c'' : Config σ V} {made more : List (Callback σ V)}

/-- The lookahead starts in what has been read, and all that was met on the way has been told. -/
structure Poised (c : Config σ V) : Prop where
  faithful : c.lexer.cursor.Faithful
  before : c.lookahead.origin.pos ≤ c.lexer.cursor.pos
  taken : c.lexer.diagnostics = #[]

/-- From one lookahead on to another, with the callbacks between them. -/
structure Proceeds (c : Config σ V) (made : List (Callback σ V)) (c' : Config σ V) : Prop where
  poised : c'.Poised
  between : Between c.lookahead.origin.pos made c'.lookahead.origin.pos

theorem Proceeds.trans (first : c.Proceeds made c') (second : c'.Proceeds more c'') :
    c.Proceeds (made ++ more) c'' := ⟨second.poised, first.between.append second.between⟩

/-- Nothing is read, and nothing is told of the text. -/
theorem proceeds_of_semantic (poised : c.Poised) (lexer : c'.lexer = c.lexer)
    (lookahead : c'.lookahead = c.lookahead)
    (semantic : ∀ callback ∈ made, callback.contact.kind = .semantic) : c.Proceeds made c' := by
  obtain ⟨faithful, before, taken⟩ := poised
  refine ⟨⟨by rwa [lexer], by rwa [lexer, lookahead], by rwa [lexer]⟩, ?_⟩
  rw [lookahead]
  exact between_of_semantic _ semantic

theorem proceeds_refl (poised : c.Poised) : c.Proceeds [] c :=
  proceeds_of_semantic poised rfl rfl (List.forall_mem_nil _)

theorem proceeds_pull (sound : g.Sound) (poised : c.Poised) {e : Evaluation σ V}
    (pulled : pull g h c.lexer e = .ok (c'.lookahead, c'.lexer, c'.eval)) :
    c.Proceeds (pullCallbacks g h c.lexer e) c' := by
  obtain ⟨delivers, _⟩ := delivers_of_pull sound poised.faithful pulled
  obtain ⟨between, taken⟩ := between_pull sound poised.faithful poised.taken pulled
  exact ⟨⟨delivers.leads.faithful, delivers.before, taken⟩, between.from_before poised.before⟩

theorem proceeds_readOn (sound : g.Sound) (poised : c.Poised) (read : c.readOn g h = .ok c') :
    c.Proceeds (pullCallbacks g h c.lexer c.eval) c' := by
  obtain ⟨_, pulled, same⟩ := bind_eq_ok_iff.1 read
  cases same
  exact proceeds_pull sound poised pulled

theorem proceeds_resume (poised : c.Poised) {entry : RecoveryEntry} {frame : Frame}
    {below : List Frame} {resumed : Bool}
    (tried : c.resume g entry frame below = .ok (resumed, c')) : c.Proceeds [] c' := by
  rcases of_resume tried with rfl | ⟨_, _, _, _, _, _, lexer, lookahead⟩
  · exact proceeds_refl poised
  · exact proceeds_of_semantic poised lexer lookahead (List.forall_mem_nil _)

/-- From a lookahead that is poised on to another that is, whatever happens to the parse. -/
theorem composes_proceeds (sound : g.Sound) (h : Host σ V) :
    Composes g h fun c made c' => c.Poised → c.Proceeds made c' where
  refl _ poised := proceeds_refl poised
  trans first second poised := (first poised).trans (second (first poised).poised)
  readOn _ read poised := proceeds_readOn sound poised read
  resume _ tried poised := proceeds_resume poised tried
  report _ _ poised := ⟨⟨poised.faithful, poised.before, poised.taken⟩, between_syntactic _ _ _⟩

theorem proceeds_start (sound : g.Sound) {source : Source} {control : Control} {host : σ}
    (begun : Config.start g h source control host = .ok c) :
    c.Poised ∧ Between source.start (pullCallbacks g h (Lexer.start source) (.initial control host))
      c.lookahead.origin.pos := by
  obtain ⟨_, pulled, same⟩ := bind_eq_ok_iff.1 begun
  have faithful := Cursor.faithful_start source
  obtain ⟨delivers, _⟩ := delivers_of_pull sound faithful pulled
  obtain ⟨between, taken⟩ := between_pull sound faithful rfl pulled
  cases same
  exact ⟨⟨delivers.leads.faithful, delivers.before, taken⟩, between⟩

theorem unread_of_reduce {id : UInt32} {p : Progress (Config σ V)}
    (reduced : c.reduce g h id = .ok p) :
    p.state.lexer = c.lexer ∧ p.state.lookahead = c.lookahead := by
  cases replaces_of_reduce reduced <;> exact ⟨rfl, rfl⟩

theorem Makes.proceeds (sound : g.Sound) (poised : c.Poised) {p : Progress (Config σ V)}
    (makes : c.Makes g h options made p) : c.Proceeds made p.state := by
  cases makes with
  | ends => exact proceeds_refl poised
  | accept => exact proceeds_refl poised
  | shift _ _ _ shifted => exact proceeds_pull sound poised (of_shift shifted).1
  | reduce _ _ _ _ _ reduced =>
    obtain ⟨lexer, lookahead⟩ := unread_of_reduce reduced
    refine proceeds_of_semantic poised lexer lookahead fun callback mem => ?_
    obtain ⟨event, _, mem⟩ := List.mem_flatMap.1 mem
    exact Event.kind_of_mem mem
  | error going _ _ failed => exact (composes_proceeds sound h).fail going failed poised

theorem proceeds_run (sound : g.Sound) (healthy : c.Sound g) (poised : c.Poised) (fuel : Nat) :
    c.Proceeds (c.runCallbacks g h options fuel) (c.last g h options fuel) :=
  (composes_proceeds sound h).run sound
    (fun _ result poised => (makes_advance result).proceeds sound poised) healthy fuel poised

/-- A syntax error is told of in a state whose entry for the lookahead is an error, at that
lookahead. -/
def Blames (g : Grammar) (c : Config σ V) (callback : Callback σ V) : Prop :=
  ∃ a message, c.entry? g = some a ∧ a.kind = .error ∧
    callback = ⟨c.moment, .report .syntactic c.lookahead.origin message⟩

theorem Makes.blames {p : Progress (Config σ V)} (makes : c.Makes g h options made p)
    {callback : Callback σ V} (mem : callback ∈ made)
    (syntactic : callback.contact.kind = .syntactic) : c.Blames g callback := by
  cases makes with
  | ends => cases mem
  | accept => cases mem
  | shift => cases syntactic.symm.trans (kind_of_pullCallbacks mem)
  | reduce =>
    obtain ⟨event, _, mem⟩ := List.mem_flatMap.1 mem
    cases syntactic.symm.trans (Event.kind_of_mem mem)
  | error _ entry kind _ =>
    rcases List.mem_cons.1 mem with rfl | later
    · exact ⟨_, _, entry, kind, rfl⟩
    · split at later
      · cases later
      · cases syntactic.symm.trans (kind_of_recoverCallbacks later)

theorem blames_run (sound : g.Sound) {control : Control} {source : Source} {host : σ}
    (reached : Reached g h options control source host c) {fuel : Nat} {callback : Callback σ V}
    (mem : callback ∈ c.runCallbacks g h options fuel)
    (syntactic : callback.contact.kind = .syntactic) :
    ∃ c', Reached g h options control source host c' ∧ c'.Blames g callback := by
  induction fuel generalizing c with
  | zero => cases mem
  | succ fuel ih =>
    obtain ⟨p, result, _⟩ : Yields (c.advance g h options) _ :=
      yields_advance sound (reached.sound sound).1
    unfold runCallbacks at mem
    rw [result, telling_ok] at mem
    rcases List.mem_append.1 mem with now | later
    · exact ⟨c, reached, (makes_advance result).blames now syntactic⟩
    · cases p with
      | more next => exact ih (reached.step result) later
      | done => cases later

end Config

/-- Errors come in the order of the text. The host sees the callbacks of the parse; the places of
the lexical and syntax errors among them never go back, and no two lexical errors are at the same
place. Every syntax error is told of at the lookahead of a state that the parse came to, whose entry
for it is an error. -/
theorem errors_come_in_source_order (valid : g.check = .ok ()) (h : Host σ V) (control : Control)
    (options : Options) (fuel : Nat) (source : Source) (host : σ) :
    let callbacks := parseCallbacks control g h options fuel source host
    ∃ last, parseLast control g h options fuel source host = .ok last ∧
      (∀ log, h.Logs log →
        log last.eval.host = log host ++ callbacks.map (Callback.exchange h)) ∧
      (places ErrorKind.isTextual callbacks).Pairwise (· ≤ ·) ∧
      (places ErrorKind.isLexical callbacks).Pairwise (· < ·) ∧
      ∀ callback ∈ callbacks, callback.contact.kind = .syntactic →
        ∃ c, Config.Reached g h options control source host c ∧ c.Blames g callback := by
  intro callbacks
  have sound := Grammar.sound_of_check valid
  obtain ⟨_, last, at_last, acts⟩ := acts_parse sound h control options fuel source host
  obtain ⟨c, begun, healthy, _⟩ := Config.yields_start sound h source control host
  obtain ⟨poised, first⟩ := Config.proceeds_start sound begun
  have rest : c.Proceeds (c.runCallbacks g h options fuel) (c.last g h options fuel) :=
    Config.proceeds_run sound healthy poised fuel
  have between := first.append rest.between
  have whole : callbacks = pullCallbacks g h (Lexer.start source) (.initial control host) ++
      c.runCallbacks g h options fuel := by
    simp only [callbacks, parseCallbacks, begun, telling_ok]
  rw [← whole] at between
  refine ⟨last, at_last, fun log => acts.logs, between.ordered, between.apart, ?_⟩
  rw [whole]
  intro callback mem syntactic
  rcases List.mem_append.1 mem with early | later
  · cases syntactic.symm.trans (kind_of_pullCallbacks early)
  · exact Config.blames_run sound (.start begun) later syntactic

section Example

open Samples.Calculator

/-- Characters that nothing matches, a product without factors, and a comment that never closes:
the parser's error stands among those of the lexer. -/
theorem calculator_errors_alternate :
    let callbacks := parseCallbacks .initial (grammar .hard) host .default 12
      (.ofText "?*)#/*" false) (Machine.start false)
    (grammar .hard).check = .ok () ∧
      places ErrorKind.isTextual callbacks = [0, 1, 2, 3, 4] ∧
      places ErrorKind.isLexical callbacks = [0, 3, 4] ∧
      (places ErrorKind.isTextual callbacks).Pairwise (· ≤ ·) ∧
      (places ErrorKind.isLexical callbacks).Pairwise (· < ·) := by
  intro callbacks
  have valid := check_grammar .hard
  obtain ⟨_, _, _, ordered, apart, _⟩ := errors_come_in_source_order valid host .initial .default 12
    (.ofText "?*)#/*" false) (Machine.start false)
  have textual : places ErrorKind.isTextual callbacks = [0, 1, 2, 3, 4] := by decide +kernel
  have lexical : places ErrorKind.isLexical callbacks = [0, 3, 4] := by decide +kernel
  exact ⟨valid, textual, lexical, ordered, apart⟩

end Example

end GrammarMachine
