import GrammarMachine.Proofs.Parse.Calculator
import GrammarMachine.Proofs.Parse.Recording

/-!
What a parse does with its text does not depend on what it computes. Evaluation leaves a footprint
of counts and of lexical and syntactic reports alone, and everything else that leaves a mark there
does so whatever the host and the semantic actions are. Two parses whose grammars differ in
semantics only, under hosts that never ask to stop, take the same turns.
-/

namespace GrammarMachine

open Evaluation Config

/-- What a parse has done to its text so far. -/
structure Footprint (α : Type) where
  shifts : Nat
  reductions : Nat
  recoveries : Nat
  lexicalErrors : Nat
  syntaxErrors : Nat
  /-- Lexical and syntactic reports, first one first. -/
  reports : List α

/-- About the text, not about what is computed from it. -/
def Report.isTextual (r : Report) : Bool := r.kind != .semantic

/-- What a report is about, apart from its words. -/
def Report.place (r : Report) : ErrorKind × Origin := (r.kind, r.origin)

section Footprints

variable {α σ V : Type} (view : Report → α) {h : Host σ V} {I : σ → Prop}
  {e e' : Evaluation (σ × List Report) V}

/-- The footprint of an evaluation with its reports, each as `view` shows it. -/
def Evaluation.footprint (e : Evaluation (σ × List Report) V) : Footprint α where
  shifts := e.stats.shifts
  reductions := e.stats.reductions
  recoveries := e.stats.recoveries
  lexicalErrors := e.stats.lexicalErrors
  syntaxErrors := e.stats.syntaxErrors
  reports := (e.host.2.filter Report.isTextual).map view

theorem Host.Patient.recording (patient : h.Patient I) :
    h.recording.Patient fun s => I s.1 where
  execute call control s inside := patient.execute call control s.1 inside
  error report control s inside := patient.error report control s.1 inside

/-- Semantic actions leave no trace in the footprint. -/
theorem Evaluation.Effect.footprint (effect : Effect h.recording e e') :
    e'.footprint view = e.footprint view := by
  cases effect with
  | quiet same =>
    obtain ⟨_, host, _, _, _, stats⟩ := same
    simp only [Evaluation.footprint, host, stats]
  | call => rfl
  | refusal =>
    simp [Evaluation.footprint, Evaluation.report, called, Host.recording, Stats.count,
      Report.isTextual]

theorem footprint_runRule {g : Grammar} {rule : UInt32} {lhs : List Nat} {rhs : List (List Nat)}
    (ran : runRule g h.recording rule lhs rhs e = .ok e') :
    e'.footprint view = e.footprint view := by
  have effects := effects_runRule ran
  clear ran
  induction effects with
  | refl => rfl
  | tail _ effect ih => rw [effect.footprint view, ih]

theorem reports_append (reports : List Report) {r : Report} (textual : r.isTextual = true) :
    ((reports ++ [r]).filter Report.isTextual).map view =
      (reports.filter Report.isTextual).map view ++ [view r] := by
  rw [List.filter_append, List.filter_cons_of_pos textual, List.map_append]
  rfl

theorem footprint_lexical (o : Origin) (m : Message) :
    (e.report h.recording .lexical o m).footprint view =
      { e.footprint view with
        lexicalErrors := (e.footprint view).lexicalErrors + 1
        reports := (e.footprint view).reports ++
          [view ⟨.lexical, o, h.message e.host.1 m.key.name m.args⟩] } := by
  simp only [Evaluation.footprint, Evaluation.report, Host.recording, Stats.count]
  rw [reports_append view _ rfl]

theorem footprint_syntactic (o : Origin) (m : Message) :
    (e.report h.recording .syntactic o m).footprint view =
      { e.footprint view with
        syntaxErrors := (e.footprint view).syntaxErrors + 1
        reports := (e.footprint view).reports ++
          [view ⟨.syntactic, o, h.message e.host.1 m.key.name m.args⟩] } := by
  simp only [Evaluation.footprint, Evaluation.report, Host.recording, Stats.count]
  rw [reports_append view _ rfl]

theorem footprint_shifting (t : Token) :
    (e.shifting t).2.footprint view =
      { e.footprint view with shifts := (e.footprint view).shifts + 1 } := by
  unfold shifting tokenAttrs
  cases t.text <;> rfl

theorem footprint_resuming (n : Nonterminal) :
    (e.resuming n).2.footprint view =
      { e.footprint view with recoveries := (e.footprint view).recoveries + 1 } := rfl

theorem footprint_reducing (o : Origin) (n : Nonterminal) :
    (e.reducing o n).2.footprint view =
      { e.footprint view with reductions := (e.footprint view).reductions + 1 } := rfl

theorem going_shifting (t : Token) (going : e.Going fun s => I s.1) :
    (e.shifting t).2.Going fun s => I s.1 := by
  unfold shifting tokenAttrs
  cases t.text <;> exact going

end Footprints

section Lockstep

variable {α σ₁ V₁ σ₂ V₂ : Type} {g₁ g₂ : Grammar} {h₁ : Host σ₁ V₁} {h₂ : Host σ₂ V₂}
  {I₁ : σ₁ → Prop} {I₂ : σ₂ → Prop} {view : Report → α}

/-- The words of the two hosts for lexical and syntax errors look alike. -/
structure SameWords (g₁ : Grammar) (h₁ : Host σ₁ V₁) (I₁ : σ₁ → Prop) (g₂ : Grammar)
    (h₂ : Host σ₂ V₂) (I₂ : σ₂ → Prop) (view : Report → α) : Prop where
  lexical : ∀ {s₁ s₂} (o : Origin) (m : Message), I₁ s₁ → I₂ s₂ →
    view ⟨.lexical, o, h₁.message s₁ m.key.name m.args⟩ =
      view ⟨.lexical, o, h₂.message s₂ m.key.name m.args⟩
  syntactic : ∀ {s₁ s₂} (state : ParserState) (t : Token), I₁ s₁ → I₂ s₂ →
    view ⟨.syntactic, t.origin, h₁.message s₁ Key.expected.name
        (Message.syntaxError g₁ h₁ s₁ state t).args⟩ =
      view ⟨.syntactic, t.origin, h₂.message s₂ Key.expected.name
        (Message.syntaxError g₂ h₂ s₂ state t).args⟩

/-- Two evaluations that go on, with the same footprint. -/
structure Tandem (I₁ : σ₁ → Prop) (I₂ : σ₂ → Prop) (view : Report → α)
    (_ : List (List Nat)) (e₁ : Evaluation (σ₁ × List Report) V₁) (_ : List (List Nat))
    (e₂ : Evaluation (σ₂ × List Report) V₂) : Prop where
  going₁ : e₁.Going fun s => I₁ s.1
  going₂ : e₂.Going fun s => I₂ s.1
  footprint : e₁.footprint view = e₂.footprint view

theorem closed_tandem (patient₁ : h₁.Patient I₁) (patient₂ : h₂.Patient I₂)
    (words : SameWords g₁ h₁ I₁ g₂ h₂ I₂ view) :
    Closed g₁ h₁.recording g₂ h₂.recording (Tandem I₁ I₂ view) where
  stopped := fun ⟨going₁, going₂, _⟩ => going₁.1.trans going₂.1.symm
  lexical := by
    intro A₁ e₁ A₂ e₂ o m ⟨going₁, going₂, footprint⟩
    refine ⟨going_report patient₁.recording _ _ _ going₁,
      going_report patient₂.recording _ _ _ going₂, ?_⟩
    rw [footprint_lexical, footprint_lexical, footprint, words.lexical o m going₁.2 going₂.2]
  syntactic := by
    intro A₁ e₁ A₂ e₂ state t ⟨going₁, going₂, footprint⟩
    refine ⟨going_report patient₁.recording _ _ _ going₁,
      going_report patient₂.recording _ _ _ going₂, ?_⟩
    rw [footprint_syntactic, footprint_syntactic, footprint]
    have same := words.syntactic state t going₁.2 going₂.2
    simp only [Message.syntaxError, Host.recording] at same ⊢
    rw [same]
  drop := fun _ ⟨going₁, going₂, footprint⟩ => ⟨going₁, going₂, footprint⟩
  shift := by
    intro A₁ e₁ A₂ e₂ t ⟨going₁, going₂, footprint⟩
    refine ⟨going_shifting t going₁, going_shifting t going₂, ?_⟩
    rw [footprint_shifting, footprint_shifting, footprint]
  resume := by
    intro A₁ e₁ A₂ e₂ id n₁ n₂ _ _ ⟨going₁, going₂, footprint⟩
    refine ⟨going₁, going₂, ?_⟩
    rw [footprint_resuming, footprint_resuming, footprint]
  reduce := by
    intro A₁ e₁ e₁' A₂ e₂ e₂' id r₁ r₂ n₁ n₂ o _ _ _ _ ⟨going₁, going₂, footprint⟩ ran₁ ran₂
    refine ⟨(calm_runRule patient₁.recording ran₁).going going₁,
      (calm_runRule patient₂.recording ran₂).going going₂, ?_⟩
    rw [footprint_runRule view ran₁, footprint_runRule view ran₂, footprint_reducing,
      footprint_reducing, footprint]

end Lockstep

/-- Two outcomes that agree on all that concerns the text. -/
structure Outcome.SameText {σ₁ V₁ σ₂ V₂ : Type} (o₁ : Outcome σ₁ V₁) (o₂ : Outcome σ₂ V₂) :
    Prop where
  accepted : o₁.accepted = o₂.accepted
  ok : o₁.ok = o₂.ok
  tokens : o₁.stats.tokens = o₂.stats.tokens
  shifts : o₁.stats.shifts = o₂.stats.shifts
  reductions : o₁.stats.reductions = o₂.stats.reductions
  recoveries : o₁.stats.recoveries = o₂.stats.recoveries
  lexicalErrors : o₁.stats.lexicalErrors = o₂.stats.lexicalErrors
  syntaxErrors : o₁.stats.syntaxErrors = o₂.stats.syntaxErrors

theorem Outcome.SameText.mapHost {σ₁ τ₁ V₁ σ₂ τ₂ V₂ : Type} {o₁ : Outcome σ₁ V₁}
    {o₂ : Outcome σ₂ V₂} (same : o₁.SameText o₂) (f₁ : σ₁ → τ₁) (f₂ : σ₂ → τ₂) :
    (o₁.mapHost f₁).SameText (o₂.mapHost f₂) :=
  ⟨same.accepted, same.ok, same.tokens, same.shifts, same.reductions, same.recoveries,
    same.lexicalErrors, same.syntaxErrors⟩

section Parses

variable {α σ₁ V₁ σ₂ V₂ : Type} {g₁ g₂ : Grammar} {h₁ : Host σ₁ V₁} {h₂ : Host σ₂ V₂}
  {I₁ : σ₁ → Prop} {I₂ : σ₂ → Prop} {view : Report → α} {options₁ options₂ : Options}
  {control₁ control₂ : Control} {host₁ : σ₁} {host₂ : σ₂}

theorem sameText_of_alike {last₁ : Config (σ₁ × List Report) V₁}
    {last₂ : Config (σ₂ × List Report) V₂} (accepted : Bool)
    (alike : last₁.Alike (Tandem I₁ I₂ view) last₂) :
    (Outcome.ofConfig accepted last₁).SameText (Outcome.ofConfig accepted last₂) := by
  have lexer := alike.lexer
  have footprint := alike.eval.footprint
  simp only [Evaluation.footprint, Footprint.mk.injEq] at footprint
  obtain ⟨shifts, reductions, recoveries, lexical, syntactic, _⟩ := footprint
  refine ⟨rfl, ?_, ?_, shifts, reductions, recoveries, lexical, syntactic⟩
  · simp only [Outcome.ofConfig, lexical, syntactic]
  · simp only [Outcome.ofConfig, lexer]

/-- Under patient hosts, parses whose grammars have the same skeleton take the same turns, make the
same textual reports as far as `view` can tell, and come to outcomes that agree on the text. -/
theorem parse_tandem (sound₁ : g₁.Sound) (sound₂ : g₂.Sound) (same : g₁.skeleton = g₂.skeleton)
    (patient₁ : h₁.Patient I₁) (patient₂ : h₂.Patient I₂)
    (words : SameWords g₁ h₁ I₁ g₂ h₂ I₂ view)
    (stop : options₁.stopOnError = options₂.stopOnError) (going₁ : control₁.stopped = false)
    (going₂ : control₂.stopped = false) (inside₁ : I₁ host₁) (inside₂ : I₂ host₂)
    (source : Source) (fuel : Nat) :
    ∃ trace reports₁ reports₂,
      parseTrace control₁ g₁ h₁ options₁ fuel source host₁ = .ok trace ∧
      parseTrace control₂ g₂ h₂ options₂ fuel source host₂ = .ok trace ∧
      parseReports control₁ g₁ h₁ options₁ fuel source host₁ = .ok reports₁ ∧
      parseReports control₂ g₂ h₂ options₂ fuel source host₂ = .ok reports₂ ∧
      (reports₁.filter Report.isTextual).map view = (reports₂.filter Report.isTextual).map view ∧
      ((parseUnder control₁ g₁ h₁ options₁ fuel source host₁ = .ok none ∧
          parseUnder control₂ g₂ h₂ options₂ fuel source host₂ = .ok none) ∨
        ∃ o₁ o₂, parseUnder control₁ g₁ h₁ options₁ fuel source host₁ = .ok (some o₁) ∧
          parseUnder control₂ g₂ h₂ options₂ fuel source host₂ = .ok (some o₂) ∧
          o₁.SameText o₂) := by
  have closed := closed_tandem patient₁ patient₂ words
  have start : Tandem I₁ I₂ view [[]] (.initial control₁ (host₁, []) : Evaluation _ V₁) [[]]
      (.initial control₂ (host₂, []) : Evaluation _ V₂) :=
    ⟨⟨going₁, inside₁⟩, ⟨going₂, inside₂⟩, rfl⟩
  obtain ⟨trace, last₁, last₂, trace₁, trace₂, at₁, at₂, alike, ends⟩ :=
    parse_alike closed same stop sound₁ sound₂ start source fuel
  have plain₁ :=
    parse_projected sound₁ h₁.projects_recording control₁ options₁ fuel source (host₁, [])
  have plain₂ :=
    parse_projected sound₂ h₂.projects_recording control₂ options₂ fuel source (host₂, [])
  refine ⟨trace, last₁.eval.host.2, last₂.eval.host.2, plain₁.1.trans trace₁,
    plain₂.1.trans trace₂, ?_, ?_, ?_, ?_⟩
  · rw [parseReports, at₁]
    rfl
  · rw [parseReports, at₂]
    rfl
  · exact congrArg Footprint.reports alike.eval.footprint
  · rw [plain₁.2, plain₂.2]
    rcases ends with ⟨none₁, none₂⟩ | ⟨accepted, some₁, some₂⟩
    · rw [none₁, none₂]
      exact .inl ⟨rfl, rfl⟩
    · rw [some₁, some₂]
      exact .inr ⟨_, _, rfl, rfl, (sameText_of_alike accepted alike).mapHost _ _⟩

/-- Semantics never influences the treatment of the text. For grammars that differ in semantic
actions and attributes only, and hosts that never ask to stop, two parses of one source take the
same turns and make the same lexical and syntactic reports but for the words; if one comes to an
outcome so does the other, and the two agree on all that concerns the text. -/
theorem turns_independent_of_semantics (valid₁ : g₁.check = .ok ()) (valid₂ : g₂.check = .ok ())
    (same : g₁.skeleton = g₂.skeleton) (patient₁ : h₁.Patient I₁) (patient₂ : h₂.Patient I₂)
    (stop : options₁.stopOnError = options₂.stopOnError) (going₁ : control₁.stopped = false)
    (going₂ : control₂.stopped = false) (inside₁ : I₁ host₁) (inside₂ : I₂ host₂)
    (source : Source) (fuel : Nat) :
    ∃ trace reports₁ reports₂,
      parseTrace control₁ g₁ h₁ options₁ fuel source host₁ = .ok trace ∧
      parseTrace control₂ g₂ h₂ options₂ fuel source host₂ = .ok trace ∧
      parseReports control₁ g₁ h₁ options₁ fuel source host₁ = .ok reports₁ ∧
      parseReports control₂ g₂ h₂ options₂ fuel source host₂ = .ok reports₂ ∧
      (reports₁.filter Report.isTextual).map Report.place =
        (reports₂.filter Report.isTextual).map Report.place ∧
      ((parseUnder control₁ g₁ h₁ options₁ fuel source host₁ = .ok none ∧
          parseUnder control₂ g₂ h₂ options₂ fuel source host₂ = .ok none) ∨
        ∃ o₁ o₂, parseUnder control₁ g₁ h₁ options₁ fuel source host₁ = .ok (some o₁) ∧
          parseUnder control₂ g₂ h₂ options₂ fuel source host₂ = .ok (some o₂) ∧
          o₁.SameText o₂) := by
  have words : SameWords g₁ h₁ I₁ g₂ h₂ I₂ Report.place :=
    ⟨fun _ _ _ _ => rfl, fun _ _ _ _ => rfl⟩
  exact parse_tandem (Grammar.sound_of_check valid₁) (Grammar.sound_of_check valid₂) same patient₁
    patient₂ words stop going₁ going₂ inside₁ inside₂ source fuel

end Parses

section Example

open Samples Samples.Calculator

theorem Samples.Calculator.treeHost_patient :
    treeHost.Patient fun log => log.stopOnFirst = false where
  execute call control log going := ⟨by simp [treeHost, Answer.refuse], going⟩
  error report control log going := ⟨by simp [treeHost, ErrorLog.add, going], going⟩

/-- The two calculators, one of which locks, on a product without a first factor behind a character
that nothing matches. -/
theorem calculators_take_same_turns :
    (grammar .hard).check = .ok () ∧ (grammar .soft).check = .ok () ∧
      (grammar .hard).skeleton = (grammar .soft).skeleton ∧ ∃ trace o₁ o₂,
        parseTrace .initial (grammar .hard) host .default 40 (.ofText "1+?**2" false)
          (Machine.start false) = .ok trace ∧
        parseTrace ⟨false, true⟩ (grammar .soft) treeHost ⟨true, false⟩ 40
          (.ofText "1+?**2" false) (ErrorLog.start false) = .ok trace ∧
        trace.length = 17 ∧
        parseUnder .initial (grammar .hard) host .default 40 (.ofText "1+?**2" false)
          (Machine.start false) = .ok (some o₁) ∧
        parseUnder ⟨false, true⟩ (grammar .soft) treeHost ⟨true, false⟩ 40
          (.ofText "1+?**2" false) (ErrorLog.start false) = .ok (some o₂) ∧ o₁.SameText o₂ := by
  have skeleton : (grammar .hard).skeleton = (grammar .soft).skeleton := by decide +kernel
  have going₁ : (fun m : Machine => m.log.stopOnFirst = false) (Machine.start false) := rfl
  have going₂ : (fun log : ErrorLog => log.stopOnFirst = false) (ErrorLog.start false) := rfl
  have ran : ((parseTrace .initial (grammar .hard) host .default 40 (.ofText "1+?**2" false)
      (Machine.start false)).toOption.map List.length) = some 17 := by decide +kernel
  have ends : ((parseUnder .initial (grammar .hard) host .default 40 (.ofText "1+?**2" false)
      (Machine.start false)).toOption.bind id).isSome = true := by decide +kernel
  obtain ⟨trace, _, _, trace₁, trace₂, _, _, _, outcomes⟩ :=
    turns_independent_of_semantics (check_grammar .hard) (check_grammar .soft) skeleton
      host_patient treeHost_patient
      (show Options.default.stopOnError = Options.stopOnError ⟨true, false⟩ from rfl)
      (show Control.initial.stopped = false from rfl)
      (show Control.stopped ⟨false, true⟩ = false from rfl) going₁ going₂
      (.ofText "1+?**2" false) 40
  rw [trace₁] at ran
  rcases outcomes with ⟨none₁, _⟩ | ⟨o₁, o₂, some₁, some₂, same⟩
  · rw [none₁] at ends
    cases ends
  · exact ⟨check_grammar .hard, check_grammar .soft, skeleton, trace, o₁, o₂, trace₁, trace₂,
      Option.some.inj ran, some₁, some₂, same⟩

end Example

end GrammarMachine
