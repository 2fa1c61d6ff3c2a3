import GrammarMachine.Proofs.Grammar.Lookups
import GrammarMachine.Proofs.Parse.Callbacks
import GrammarMachine.Proofs.Parse.Inversion

/-!
Why a parse is rejected. Each step finds an entry in the tables, and the one that meets an error
tells the host before it gives up. What is left are reductions for which the tables do not provide:
the stack has no state below the right-hand side, or there is nowhere to go from it. These end a
parse as well, and nobody is told.
-/

namespace GrammarMachine

open Evaluation

variable {σ V : Type} {g : Grammar} {h : Host σ V} {options : Options}

/-- The host is told of a syntax error. -/
def Callback.TellsSyntax (callback : Callback σ V) : Prop :=
  ∃ o message, callback.contact = .report .syntactic o message

namespace Evaluation

variable {m m' : Moment σ V} {made : List (Callback σ V)}

/-- Only the host stops a parse. -/
theorem Acts.stopped (acts : Acts h m made m') (patient : ∀ callback ∈ made, ¬callback.Stops h) :
    m'.eval.control.stopped = m.eval.control.stopped := by
  induction acts with
  | refl => rfl
  | quiet _ quiet _ ih =>
    rw [quiet.control]
    exact ih patient
  | @answer _ m' _ _ call _ _ _ _ _ _ _ _ ih =>
    obtain ⟨before, asked⟩ := List.forall_mem_append.1 patient
    exact (Control.stopped_obeyAll (asked _ List.mem_cons_self) _).trans (ih before)
  | @refuse _ m' _ _ call o reason _ _ _ _ _ _ _ ih =>
    obtain ⟨before, asked⟩ := List.forall_mem_append.1 patient
    obtain ⟨asked, told⟩ := List.forall_mem_cons.1 asked
    exact ((Control.stopped_obeyAll (told _ List.mem_cons_self) _).trans
      (Control.stopped_obeyAll asked _)).trans (ih before)
  | report _ _ _ ih =>
    obtain ⟨before, told⟩ := List.forall_mem_append.1 patient
    exact (Control.stopped_obeyAll (told _ List.mem_cons_self) _).trans (ih before)
  | work _ _ _ _ _ _ ih => exact ih patient

end Evaluation

namespace Config

variable {c c' last : Config σ V} {fuel : Nat}

/-- The step to take is a reduction for which the tables do not provide: the rule is as long as the
stack at least, or its nonterminal has no pairs. -/
def Stranded (g : Grammar) (c : Config σ V) : Prop :=
  ∃ a r n, c.entry? g = some a ∧ a.kind = .reduce ∧ g.rules[a.aux.toNat]? = some r ∧
    g.nonterminals[r.lhs.toNat]? = some n ∧ (c.stack.length ≤ r.length.toNat ∨ n.gotos = #[])

/-- A reduction ends the parse only where the tables do not provide for it. -/
theorem stranded_of_reduce (sound : g.Sound) {a : Action} (entry : c.entry? g = some a)
    (kind : a.kind = .reduce) (reduced : c.reduce g h a.aux = .ok (.done false last)) :
    c.Stranded g := by
  obtain ⟨r, rule, ⟨_, _, nowhere⟩ | ⟨_, _, _, _, _, more, _⟩⟩ :=
    reduce_eq_ok h.patient_nowhere reduced
  · have inside := sound.lhs r (Array.mem_of_getElem? rule)
    have lhs := Array.getElem?_eq_getElem inside
    refine ⟨a, r, _, entry, kind, rule, lhs, ?_⟩
    cases popped : c.states.drop r.length.toNat with
    | nil =>
      left
      simpa [states] using List.drop_eq_nil_iff.1 popped
    | cons base under =>
      right
      have stuck : g.nonterminals[r.lhs.toNat].goto? base = none :=
        Option.eq_none_iff_forall_not_mem.2 fun target goto =>
          nowhere base under _ target popped lhs goto
      exact Nonterminal.goto?_eq_none_iff.1 stuck
  · cases more

/-- While the parse goes on there is a state on top. -/
theorem standing_advance (standing : c.stack ≠ [])
    (result : c.advance g h options = .ok (.more c')) : c'.stack ≠ [] := by
  cases acts_of_advance result with
  | shift _ _ shifted =>
    rw [(of_shift shifted).2]
    exact List.cons_ne_nil _ _
  | reduce _ _ reduced =>
    obtain ⟨_, _, ⟨_, done, _⟩ | ⟨_, _, _, _, _, more, _, _, _, states, _⟩⟩ :=
      reduce_eq_ok h.patient_nowhere reduced
    · cases done
    · cases more
      intro empty
      rw [Config.states, empty] at states
      cases states
  | error _ _ failed =>
    have kept : Kept g h fun c => c.stack ≠ [] := {
      readOn := fun before read => by
        obtain ⟨_, _, same⟩ := bind_eq_ok_iff.1 read
        cases same
        exact before
      resume := fun before _ _ _ tried => by
        rcases of_resume tried with rfl | ⟨_, _, _, _, _, stack, _⟩
        · exact before
        · rw [stack]
          exact List.cons_ne_nil _ _ }
    exact kept.fail standing failed

/-- An entry for an error has the host told of it first. -/
theorem exists_tells_of_error (going : c.eval.control.stopped = false) {a : Action}
    (entry : c.entry? g = some a) (kind : a.kind = .error) :
    ∃ callback ∈ c.callbacks g h options, callback.TellsSyntax := by
  obtain ⟨top, below, stack, found⟩ := exists_top_of_entry? entry
  obtain ⟨state, there, action⟩ := Option.bind_eq_some_iff.1 found
  obtain ⟨_, low, high, aux⟩ := a
  cases kind
  have made : c.callbacks g h options = c.failCallbacks g h options state := by
    rw [callbacks, going, if_neg Bool.false_ne_true, stack]
    dsimp only
    rw [Grammar.state, fetch_eq_ok_iff.2 there, telling_ok, action]
  rw [made, failCallbacks]
  exact ⟨_, List.mem_cons_self, _, _, rfl⟩

/-- A step that rejects the text tells the host of an error, or is a reduction for which the tables
do not provide. -/
theorem tells_or_stranded (sound : g.Sound) (healthy : c.Sound g) (standing : c.stack ≠ [])
    (going : c.eval.control.stopped = false)
    (result : c.advance g h options = .ok (.done false last)) :
    (∃ callback ∈ c.callbacks g h options, callback.TellsSyntax) ∨ c.Stranded g := by
  cases acts_of_advance result with
  | stopped on => cases going.symm.trans on
  | lost none =>
    obtain ⟨a, entry⟩ := exists_entry? sound healthy standing
    cases none.symm.trans entry
  | reduce entry kind reduced => exact .inr (stranded_of_reduce sound entry kind reduced)
  | error entry kind _ => exact .inl (exists_tells_of_error going entry kind)

/-- The last step of a parse that is rejected, and what the host was told before. -/
theorem tells_or_stranded_of_run (sound : g.Sound) {control : Control} {source : Source} {host : σ}
    (reached : Reached g h options control source host c) (standing : c.stack ≠ [])
    (going : c.eval.control.stopped = false) {outcome : Outcome σ V}
    (patient : ∀ callback ∈ c.runCallbacks g h options fuel, ¬callback.Stops h)
    (ended : c.run g h options fuel = .ok (some outcome)) (rejected : outcome.accepted = false) :
    (∃ callback ∈ c.runCallbacks g h options fuel, callback.TellsSyntax) ∨
      ∃ c' last, Reached g h options control source host c' ∧ c'.Stranded g ∧
        c'.advance g h options = .ok (.done false last) ∧ outcome = .ofConfig false last := by
  induction fuel generalizing c with
  | zero => cases ended
  | succ fuel ih =>
    have healthy := (reached.sound sound).1
    unfold run at ended
    unfold runCallbacks at patient ⊢
    obtain ⟨p, result, rest⟩ := bind_eq_ok_iff.1 ended
    rw [result, telling_ok] at patient ⊢
    obtain ⟨now, later⟩ := List.forall_mem_append.1 patient
    cases p with
    | more next =>
      have stopped := (acts_advance sound healthy result).stopped now
      rcases ih (reached.step result) (standing_advance standing result) (stopped.trans going)
        later rest with ⟨callback, mem, tells⟩ | stranded
      · exact .inl ⟨callback, List.mem_append_right _ mem, tells⟩
      · exact .inr stranded
    | done accepted last =>
      cases rest
      have no : accepted = false := rejected
      subst no
      rcases tells_or_stranded sound healthy standing going result with
        ⟨callback, mem, tells⟩ | stranded
      · exact .inl ⟨callback, List.mem_append_left _ mem, tells⟩
      · exact .inr ⟨c, last, reached, stranded, result, rfl⟩

end Config

/-- No text is rejected without a word, unless the tables do not provide for a reduction. Under a
host that does not ask to stop while the parse runs, a parse that is not accepted has told the host
of a syntax error, or its last step was a reduction by a rule as long as the stack at least, or for
a nonterminal without pairs. -/
theorem rejections_are_reported (valid : g.check = .ok ()) (h : Host σ V) {control : Control}
    (options : Options) {fuel : Nat} {source : Source} {host : σ} {outcome : Outcome σ V}
    (going : control.stopped = false)
    (patient : ∀ callback ∈ parseCallbacks control g h options fuel source host,
      ¬callback.Stops h)
    (ended : parseUnder control g h options fuel source host = .ok (some outcome))
    (rejected : outcome.accepted = false) :
    (∀ log, h.Logs log → log outcome.host = log host ++
      (parseCallbacks control g h options fuel source host).map (Callback.exchange h)) ∧
    ((∃ callback ∈ parseCallbacks control g h options fuel source host,
        ∃ o message, callback.contact = .report .syntactic o message) ∨
      ∃ c last, Config.Reached g h options control source host c ∧ c.Stranded g ∧
        c.advance g h options = .ok (.done false last) ∧ outcome = .ofConfig false last) := by
  have sound := Grammar.sound_of_check valid
  constructor
  · obtain ⟨c, begun, ran⟩ := bind_eq_ok_iff.1 ended
    obtain ⟨accepted, rfl⟩ := Config.outcome_of_run ran
    obtain ⟨_, _, at_last, acts⟩ := acts_parse sound h control options fuel source host
    rw [parseLast, begun] at at_last
    cases at_last
    exact fun _ => acts.logs
  · obtain ⟨c, begun, ran⟩ := bind_eq_ok_iff.1 ended
    have start : Config.Reached g h options control source host c := .start begun
    rw [parseCallbacks, begun, telling_ok] at patient ⊢
    obtain ⟨read, later⟩ := List.forall_mem_append.1 patient
    obtain ⟨⟨t, l, e⟩, pulled, same⟩ := bind_eq_ok_iff.1 begun
    cases same
    have stopped := (acts_pulled pulled).stopped read
    rcases Config.tells_or_stranded_of_run sound start (List.cons_ne_nil _ _)
      (stopped.trans going) later ran rejected with ⟨callback, mem, tells⟩ | stranded
    · exact .inl ⟨callback, List.mem_append_right _ mem, tells⟩
    · exact .inr stranded

section Example

open Samples.Calculator

/-- A bracket that is not closed. -/
theorem calculator_rejects_open_bracket : (grammar .hard).check = .ok () ∧ ∃ outcome,
    parseUnder .initial (grammar .hard) host .default 20 (.ofText "(1" false) (Machine.start false) =
      .ok (some outcome) ∧ outcome.accepted = false ∧
    (∀ callback ∈ parseCallbacks .initial (grammar .hard) host .default 20 (.ofText "(1" false)
      (Machine.start false), ¬callback.Stops host) ∧
    ((∃ callback ∈ parseCallbacks .initial (grammar .hard) host .default 20 (.ofText "(1" false)
        (Machine.start false), ∃ o message, callback.contact = .report .syntactic o message) ∨
      ∃ c last, Config.Reached (grammar .hard) host .default .initial (.ofText "(1" false)
          (Machine.start false) c ∧ c.Stranded (grammar .hard) ∧
        c.advance (grammar .hard) host .default = .ok (.done false last) ∧
        outcome = .ofConfig false last) := by
  have valid := check_grammar .hard
  have facts : (parseUnder .initial (grammar .hard) host .default 20 (.ofText "(1" false)
      (Machine.start false)).toOption.map (fun o => o.map Outcome.accepted) =
        some (some false) := by
    decide +kernel
  obtain ⟨o, ended, some⟩ := Option.map_eq_some_iff.1 facts
  obtain ⟨outcome, rfl, rejected⟩ := Option.map_eq_some_iff.1 some
  have patient : ∀ callback ∈ parseCallbacks .initial (grammar .hard) host .default 20
      (.ofText "(1" false) (Machine.start false), ¬callback.Stops host := by
    have none : ((parseCallbacks .initial (grammar .hard) host .default 20 (.ofText "(1" false)
        (Machine.start false)).all fun callback =>
          decide (.stop ∉ (callback.exchange host).commands)) = true := by
      decide +kernel
    intro callback mem
    simpa [Callback.Stops] using List.all_eq_true.1 none callback mem
  have ended := eq_ok_of_toOption ended
  exact ⟨valid, outcome, ended, rejected, patient,
    (rejections_are_reported valid host .default rfl patient ended rejected).2⟩

/-- A grammar whose only state reduces by the only rule at the end of the text. -/
def Samples.stranding (length : UInt32) (pairs : List (UInt32 × UInt32)) : Grammar where
  tokens := #[⟨some "end of text", true, false⟩]
  lexer := { states := #[.ofRanges .nothing [] []], maxDepth := 0 }
  comments := .empty
  states := #[.ofActions [.reduce endOfText endOfText 0]]
  nonterminals := #[.ofPairs 0 pairs]
  rules := #[⟨length, 0, #[]⟩]
  recoveries := []

/-- The grammar passes the checks and rejects the empty text, and the host is not called. -/
def Samples.RejectsInSilence (g : Grammar) : Prop :=
  g.check = .ok () ∧ ∃ outcome,
    parseUnder .initial g host .default 5 (.ofText "" false) (Machine.start false) =
      .ok (some outcome) ∧ outcome.accepted = false ∧
    parseCallbacks .initial g host .default 5 (.ofText "" false) (Machine.start false) = []

theorem Samples.rejectsInSilence_of_facts {g : Grammar} (valid : g.check.toOption = some ())
    (ends : (parseUnder .initial g host .default 5 (.ofText "" false)
      (Machine.start false)).toOption.map (fun o => o.map Outcome.accepted) = some (some false))
    (none : (parseCallbacks .initial g host .default 5 (.ofText "" false)
      (Machine.start false)).isEmpty = true) : Samples.RejectsInSilence g := by
  obtain ⟨o, ended, some⟩ := Option.map_eq_some_iff.1 ends
  obtain ⟨outcome, rfl, rejected⟩ := Option.map_eq_some_iff.1 some
  exact ⟨eq_ok_of_toOption valid, outcome, eq_ok_of_toOption ended, rejected,
    List.isEmpty_iff.1 none⟩

/-- A rule as long as the stack, and a nonterminal that leads nowhere. -/
theorem stranded_parses_are_silent : Samples.RejectsInSilence (Samples.stranding 1 [(0, 0)]) ∧
    Samples.RejectsInSilence (Samples.stranding 0 []) :=
  ⟨Samples.rejectsInSilence_of_facts (by decide +kernel) (by decide +kernel) (by decide +kernel),
    Samples.rejectsInSilence_of_facts (by decide +kernel) (by decide +kernel) (by decide +kernel)⟩

end Example

end GrammarMachine
