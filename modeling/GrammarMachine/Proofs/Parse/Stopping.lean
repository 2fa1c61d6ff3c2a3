import GrammarMachine.Proofs.Parse.Callbacks
import GrammarMachine.Proofs.Parse.Recording

/-!
Stopping. Once a host has asked to stop, nothing more is read, shifted, reduced or recovered from,
and no syntax error is looked for; what is left of the callbacks of the token just read, or of the
reduction under way, is made, and the parse ends without success.
-/

namespace GrammarMachine

open Evaluation

namespace Control

variable {commands : List Command}

theorem stopped_obeyAll_of_stopped {control : Control} (stopped : control.stopped = true) :
    (control.obeyAll commands).stopped = true := by
  unfold obeyAll
  induction commands generalizing control with
  | nil => exact stopped
  | cons command rest ih => exact ih (stopped_obey command stopped)

theorem stopped_obeyAll_of_mem (asked : .stop ∈ commands) (control : Control) :
    (control.obeyAll commands).stopped = true := by
  induction commands generalizing control with
  | nil => cases asked
  | cons command rest ih =>
    rcases List.mem_cons.1 asked with rfl | later
    · change ((control.obey .stop).obeyAll rest).stopped = true
      exact stopped_obeyAll_of_stopped rfl
    · exact ih later _

end Control

/-- The counts that tell how far a parse has come. -/
structure Tally where
  tokens : Nat
  shifts : Nat
  reductions : Nat
  recoveries : Nat
  syntaxErrors : Nat
deriving DecidableEq, Repr

section Tallies

variable {σ V : Type}

def Moment.tally (m : Moment σ V) : Tally where
  tokens := m.lexer.tokenCount
  shifts := m.eval.stats.shifts
  reductions := m.eval.stats.reductions
  recoveries := m.eval.stats.recoveries
  syntaxErrors := m.eval.stats.syntaxErrors

def Outcome.tally (o : Outcome σ V) : Tally where
  tokens := o.stats.tokens
  shifts := o.stats.shifts
  reductions := o.stats.reductions
  recoveries := o.stats.recoveries
  syntaxErrors := o.stats.syntaxErrors

/-- The counts while the host is called: an error that is reported has been counted. -/
def Callback.tally (callback : Callback σ V) : Tally :=
  let tally := callback.toMoment.tally
  if callback.contact.kind = .syntactic then
    { tally with syntaxErrors := tally.syntaxErrors + 1 }
  else tally

end Tallies

namespace Evaluation

variable {σ V : Type} {h : Host σ V} {m m' m'' : Moment σ V} {made more : List (Callback σ V)}
  {callback : Callback σ V} {lexer : Lexer} {tally : Tally}

/-- The parse is to stop, and has come this far. -/
structure Halted (lexer : Lexer) (tally : Tally) (m : Moment σ V) : Prop where
  stopped : m.eval.control.stopped = true
  lexer : m.lexer = lexer
  tally : m.tally = tally

/-- From a state that is to stop, and from a callback that asks to stop, nothing changes any more,
and no syntax error is reported. -/
structure Heeds (h : Host σ V) (m : Moment σ V) (made : List (Callback σ V)) (m' : Moment σ V) :
    Prop where
  frozen : m.eval.control.stopped = true → Halted m.lexer m.tally m'
  quiet : m.eval.control.stopped = true →
    ∀ next ∈ made, Halted m.lexer m.tally next.toMoment ∧ next.contact.kind ≠ .syntactic
  kept : ∀ callback ∈ made, callback.Stops h → Halted callback.lexer callback.tally m'
  later : made.Pairwise fun callback next => callback.Stops h →
    Halted callback.lexer callback.tally next.toMoment ∧ next.contact.kind ≠ .syntactic

namespace Heeds

theorem refl (m : Moment σ V) : Heeds h m [] m where
  frozen stopped := ⟨stopped, rfl, rfl⟩
  quiet _ _ mem := nomatch mem
  kept _ mem := nomatch mem
  later := .nil

theorem frozen_of_halted (heeds : Heeds h m made m') (halted : Halted lexer tally m) :
    Halted lexer tally m' := by
  obtain ⟨stopped, rfl, rfl⟩ := halted
  exact heeds.frozen stopped

theorem quiet_of_halted (heeds : Heeds h m made m') (halted : Halted lexer tally m) :
    ∀ next ∈ made, Halted lexer tally next.toMoment ∧ next.contact.kind ≠ .syntactic := by
  obtain ⟨stopped, rfl, rfl⟩ := halted
  exact heeds.quiet stopped

theorem trans (first : Heeds h m made m') (second : Heeds h m' more m'') :
    Heeds h m (made ++ more) m'' where
  frozen stopped := second.frozen_of_halted (first.frozen stopped)
  quiet stopped next mem := by
    rcases List.mem_append.1 mem with early | late
    · exact first.quiet stopped next early
    · exact second.quiet_of_halted (first.frozen stopped) next late
  kept callback mem stops := by
    rcases List.mem_append.1 mem with early | late
    · exact second.frozen_of_halted (first.kept callback early stops)
    · exact second.kept callback late stops
  later := by
    refine List.pairwise_append.2 ⟨first.later, second.later, ?_⟩
    intro callback early next late stops
    exact second.quiet_of_halted (first.kept callback early stops) next late

/-- One callback. -/
theorem single (callback : Callback σ V) (frozen : callback.eval.control.stopped = true →
      Halted callback.lexer callback.toMoment.tally m' ∧ callback.contact.kind ≠ .syntactic)
    (kept : callback.Stops h → Halted callback.lexer callback.tally m') :
    Heeds h callback.toMoment [callback] m' where
  frozen stopped := (frozen stopped).1
  quiet stopped next mem := by
    cases List.mem_singleton.1 mem
    exact ⟨⟨stopped, rfl, rfl⟩, (frozen stopped).2⟩
  kept next mem := by
    cases List.mem_singleton.1 mem
    exact kept
  later := List.pairwise_singleton _ _

/-- What is not counted here can change. -/
theorem congr {e : Evaluation σ V} (heeds : Heeds h m made m')
    (control : e.control = m'.eval.control)
    (tally : (⟨m'.lexer, e⟩ : Moment σ V).tally = m'.tally) : Heeds h m made ⟨m'.lexer, e⟩ := by
  have halted : ∀ {lexer tally}, Halted lexer tally m' →
      Halted lexer tally (⟨m'.lexer, e⟩ : Moment σ V) := fun ⟨stopped, lexer, same⟩ =>
    ⟨(congrArg Control.stopped control).trans stopped, lexer, tally.trans same⟩
  exact ⟨fun stopped => halted (heeds.frozen stopped), heeds.quiet,
    fun callback mem stops => halted (heeds.kept callback mem stops), heeds.later⟩

end Heeds

theorem heeds_call (m : Moment σ V) (target : Nat) (call : Call V) :
    Heeds h m [⟨m, .call target call⟩] ⟨m.lexer, m.eval.called h call⟩ := by
  refine Heeds.single ⟨m, .call target call⟩ (fun stopped => ⟨⟨?_, rfl, rfl⟩, nofun⟩)
    fun stops => ⟨?_, rfl, rfl⟩
  · exact Control.stopped_obeyAll_of_stopped stopped
  · exact Control.stopped_obeyAll_of_mem stops _

theorem heeds_report (m : Moment σ V) (kind : ErrorKind) (o : Origin) (message : Message)
    (going : kind = .syntactic → m.eval.control.stopped = false) :
    Heeds h m [⟨m, .report kind o message⟩] ⟨m.lexer, m.eval.report h kind o message⟩ := by
  refine Heeds.single ⟨m, .report kind o message⟩ (fun stopped => ?_)
    fun stops => ⟨Control.stopped_obeyAll_of_mem stops _, rfl, ?_⟩
  · have other : kind ≠ .syntactic := by
      intro same
      exact Bool.noConfusion (stopped.symm.trans (going same))
    refine ⟨⟨Control.stopped_obeyAll_of_stopped stopped, rfl, ?_⟩, other⟩
    cases kind with
    | syntactic => exact absurd rfl other
    | _ => rfl
  · cases kind <;> rfl

theorem Acts.heeds (acts : Acts h m made m') : Heeds h m made m' := by
  induction acts with
  | refl => exact .refl m
  | quiet _ quiet _ ih =>
    obtain ⟨control, _, actions, deferred, replays, stats⟩ := quiet
    refine ih.congr control ?_
    rw [Moment.tally, stats]
    rfl
  | answer _ _ _ _ _ _ ih => exact (ih.trans (heeds_call _ _ _)).congr rfl rfl
  | @refuse _ m' target _ call o reason _ _ _ _ _ _ _ ih =>
    have told := (ih.trans (heeds_call m' target call)).trans
      (heeds_report _ .semantic o ⟨.failed, [reason]⟩ nofun)
    rw [List.append_assoc] at told
    exact told.congr rfl rfl
  | report _ _ going ih => exact ih.trans (heeds_report _ _ _ _ going)
  | @work _ m' _ going lexer shifts reductions recoveries ih =>
    have worked : Heeds h m' [] ⟨lexer, { m'.eval with
        stats := { m'.eval.stats with shifts, reductions, recoveries } }⟩ := by
      have never : m'.eval.control.stopped ≠ true := by simp [going]
      refine ⟨fun stopped => absurd stopped never, fun _ _ mem => (nomatch mem),
        fun _ mem => (nomatch mem), .nil⟩
    have later := ih.trans worked
    rwa [List.append_nil] at later

end Evaluation

/-- Behind a callback that asks to stop there are only callbacks of its kind. -/
def Kindred {σ V : Type} (h : Host σ V) (made : List (Callback σ V)) : Prop :=
  made.Pairwise fun callback next => callback.Stops h → next.contact.kind = callback.contact.kind

variable {σ V : Type} {g : Grammar} {h : Host σ V} {options : Options}

theorem kindred_of_kind (kind : ErrorKind) {made : List (Callback σ V)}
    (all : ∀ callback ∈ made, callback.contact.kind = kind) : Kindred h made :=
  List.pairwise_of_forall_mem_list fun callback mem next later _ =>
    (all next later).trans (all callback mem).symm

/-- What is left of the callbacks when the parse is to stop. -/
theorem Kindred.append {made more : List (Callback σ V)} (first : Kindred h made)
    (second : Kindred h more) (ends : ∀ callback ∈ made, callback.Stops h → more = []) :
    Kindred h (made ++ more) := by
  refine List.pairwise_append.2 ⟨first, second, fun callback early next late stops => ?_⟩
  rw [ends callback early stops] at late
  cases late

namespace Config

variable {c c' : Config σ V}

theorem kind_of_recoverFromCallbacks {n : Nat} {callback : Callback σ V}
    (mem : callback ∈ recoverFromCallbacks g h n c) : callback.contact.kind = .lexical := by
  induction n generalizing c with
  | zero => cases mem
  | succ n ih =>
    unfold recoverFromCallbacks at mem
    split at mem
    · cases mem
    · split at mem
      · cases mem
      · rcases List.mem_append.1 mem with early | late
        · exact kind_of_pullCallbacks early
        · unfold telling at late
          split at late
          · exact ih late
          · cases late

theorem kind_of_recoverCallbacks {callback : Callback σ V}
    (mem : callback ∈ c.recoverCallbacks g h) : callback.contact.kind = .lexical := by
  unfold recoverCallbacks at mem
  split at mem
  · cases mem
  · split at mem
    · rcases List.mem_append.1 mem with early | late
      · exact kind_of_pullCallbacks early
      · unfold telling at late
        split at late
        · exact kind_of_recoverFromCallbacks late
        · cases late
    · exact kind_of_recoverFromCallbacks mem

theorem kindred_fail (state : ParserState) : Kindred h (c.failCallbacks g h options state) := by
  unfold failCallbacks
  dsimp only
  split
  · exact List.pairwise_singleton _ _
  · next open_ =>
    have lexical : Kindred h ((c.reportSyntax g h state).recoverCallbacks g h) :=
      kindred_of_kind .lexical fun callback => kind_of_recoverCallbacks
    refine List.pairwise_cons.2 ⟨fun next _ stops => ?_, lexical⟩
    have stopped : (c.reportSyntax g h state).eval.control.stopped = true :=
      Control.stopped_obeyAll_of_mem stops _
    simp [stopped] at open_

theorem kindred_callbacks (c : Config σ V) : Kindred h (c.callbacks g h options) := by
  unfold callbacks
  split
  · exact .nil
  · split
    · exact .nil
    · unfold telling
      split
      · dsimp only
        split
        · exact kindred_of_kind .lexical fun callback => kind_of_pullCallbacks
        · refine kindred_of_kind .semantic fun callback mem => ?_
          obtain ⟨event, _, mem⟩ := List.mem_flatMap.1 mem
          exact Event.kind_of_mem mem
        · exact kindred_fail _
        · exact .nil
      · exact .nil

theorem advance_of_stopped (stopped : c.eval.control.stopped = true) :
    c.advance g h options = .ok (.done false c) := if_pos stopped

theorem runCallbacks_of_stopped (stopped : c.eval.control.stopped = true) (fuel : Nat) :
    c.runCallbacks g h options fuel = [] := by
  cases fuel with
  | zero => rfl
  | succ fuel =>
    rw [runCallbacks, advance_of_stopped stopped, callbacks, if_pos stopped]
    rfl

theorem kindred_run (sound : g.Sound) (healthy : c.Sound g) (fuel : Nat) :
    Kindred h (c.runCallbacks g h options fuel) := by
  induction fuel generalizing c with
  | zero => exact .nil
  | succ fuel ih =>
    obtain ⟨p, result, follows⟩ : Yields (c.advance g h options) _ := yields_advance sound healthy
    have heeds := (acts_advance sound healthy result).heeds
    unfold runCallbacks
    rw [result]
    cases p with
    | more next =>
      refine (kindred_callbacks c).append (ih follows.sound) fun callback mem stops => ?_
      exact runCallbacks_of_stopped (heeds.kept callback mem stops).stopped fuel
    | done accepted last => exact (kindred_callbacks c).append .nil fun _ _ _ => rfl

theorem rejected_of_reduce {id : UInt32} {accepted : Bool}
    (reduced : c.reduce g h id = .ok (.done accepted c')) : accepted = false := by
  cases replaces_of_reduce reduced <;> rfl

theorem rejected_of_fail {state : ParserState} {accepted : Bool}
    (failed : c.fail g h options state = .ok (.done accepted c')) : accepted = false := by
  unfold fail at failed
  dsimp only at failed
  split at failed
  · cases failed
    rfl
  · obtain ⟨⟨resumed, c₁⟩, _, rest⟩ := bind_eq_ok_iff.1 failed
    cases resumed with
    | true => cases rest
    | false =>
      cases rest
      rfl

/-- A parse that is to stop is not accepted. -/
theorem rejected_of_stopped {accepted : Bool}
    (result : c.advance g h options = .ok (.done accepted c'))
    (stopped : c'.eval.control.stopped = true) : accepted = false := by
  have makes := makes_advance result
  generalize c.callbacks g h options = made at makes
  cases makes with
  | ends => rfl
  | accept going => cases stopped.symm.trans going
  | reduce _ _ _ _ _ reduced => exact rejected_of_reduce reduced
  | error _ _ _ failed => exact rejected_of_fail failed

/-- A parse that is to stop ends with the next step at the latest, and calls nobody any more. -/
theorem run_of_stopped (sound : g.Sound) (healthy : c.Sound g) {fuel fuel' : Nat}
    (stopped : (c.last g h options fuel).eval.control.stopped = true) (more : fuel < fuel') :
    c.run g h options fuel' = .ok (some (.ofConfig false (c.last g h options fuel))) ∧
      c.runCallbacks g h options fuel' = c.runCallbacks g h options fuel := by
  induction fuel generalizing c fuel' with
  | zero =>
    obtain ⟨fuel', rfl⟩ := Nat.exists_eq_add_one_of_ne_zero (Nat.ne_zero_of_lt more)
    have stopped : c.eval.control.stopped = true := stopped
    refine ⟨?_, runCallbacks_of_stopped stopped _⟩
    rw [run, advance_of_stopped stopped]
    rfl
  | succ fuel ih =>
    obtain ⟨fuel', rfl⟩ := Nat.exists_eq_add_one_of_ne_zero (Nat.ne_zero_of_lt more)
    obtain ⟨p, result, follows⟩ : Yields (c.advance g h options) _ := yields_advance sound healthy
    unfold last at stopped ⊢
    unfold run runCallbacks
    rw [result] at stopped ⊢
    cases p with
    | more next =>
      obtain ⟨ran, calls⟩ := ih (c := next) follows.sound stopped (Nat.lt_of_succ_lt_succ more)
      exact ⟨ran, congrArg (c.callbacks g h options ++ ·) calls⟩
    | done accepted last =>
      rw [rejected_of_stopped result stopped]
      exact ⟨rfl, rfl⟩

end Config

theorem kindred_parse (sound : g.Sound) (h : Host σ V) (control : Control) (options : Options)
    (fuel : Nat) (source : Source) (host : σ) :
    Kindred h (parseCallbacks control g h options fuel source host) := by
  obtain ⟨c, begun, healthy, _⟩ := Config.yields_start sound h source control host
  rw [parseCallbacks, begun, telling_ok]
  refine (kindred_of_kind .lexical fun callback => kind_of_pullCallbacks).append
    (Config.kindred_run sound healthy fuel) fun callback mem stops => ?_
  obtain ⟨⟨t, l, e⟩, pulled, same⟩ := bind_eq_ok_iff.1 begun
  cases same
  have halted := (acts_pulled pulled).heeds.kept callback mem stops
  exact Config.runCallbacks_of_stopped halted.stopped fuel

/-- A parse that is to stop has its outcome with the next step at the latest. -/
theorem parse_of_stopped (sound : g.Sound) {control : Control} {fuel fuel' : Nat} {source : Source}
    {host : σ} {last : Config σ V}
    (at_last : parseLast control g h options fuel source host = .ok last)
    (stopped : last.eval.control.stopped = true) (more : fuel < fuel') :
    parseUnder control g h options fuel' source host = .ok (some (.ofConfig false last)) ∧
      parseCallbacks control g h options fuel' source host =
        parseCallbacks control g h options fuel source host := by
  obtain ⟨c, begun, healthy, _⟩ := Config.yields_start sound h source control host
  rw [parseLast, begun] at at_last
  cases at_last
  obtain ⟨ran, calls⟩ := Config.run_of_stopped sound healthy stopped more
  rw [parseUnder, parseCallbacks, parseCallbacks, begun, telling_ok, telling_ok, calls]
  exact ⟨ran, rfl⟩

section Example

open Samples.Calculator

end Example

end GrammarMachine
