import GrammarMachine.Proofs.Evaluation.Effects

/-!
What evaluation leaves alone. Semantic actions count no lexical and no syntax errors, and with a
host that never asks to stop they do not stop the parse either.
-/

namespace GrammarMachine

/-- In the states of `I`, which it does not leave, the host never asks to stop. -/
structure Host.Patient {σ V : Type} (h : Host σ V) (I : σ → Prop) : Prop where
  execute : ∀ call control s, I s →
    Command.stop ∉ (h.execute call control s).1.commands ∧ I (h.execute call control s).2
  error : ∀ report control s, I s →
    Command.stop ∉ (h.error report control s).1 ∧ I (h.error report control s).2

theorem Control.stopped_obeyAll {commands : List Command} (patient : Command.stop ∉ commands)
    (control : Control) : (control.obeyAll commands).stopped = control.stopped := by
  unfold obeyAll
  induction commands generalizing control with
  | nil => rfl
  | cons command rest ih =>
    simp only [List.mem_cons, not_or] at patient
    rw [List.foldl_cons, ih patient.2]
    cases command with
    | stop => exact absurd rfl patient.1
    | lock => rfl
    | unlock => rfl

theorem Host.Patient.answered {σ V : Type} {h : Host σ V} {I : σ → Prop} (patient : h.Patient I)
    {call : Call V} {control : Control} {s : σ} (going : control.stopped = false) (inside : I s) :
    (control.obeyAll (h.execute call control s).1.commands).stopped = false ∧
      I (h.execute call control s).2 := by
  obtain ⟨commands, stays⟩ := patient.execute call control s inside
  exact ⟨(Control.stopped_obeyAll commands control).trans going, stays⟩

namespace Evaluation

variable {σ V : Type} {g : Grammar} {h : Host σ V} {I : σ → Prop} {e e' e'' : Evaluation σ V}
  {target : Nat}

/-- The parse is not stopped, and the host is in a state of `I`. -/
def Going (I : σ → Prop) (e : Evaluation σ V) : Prop :=
  e.control.stopped = false ∧ I e.host

/-- The parse goes on if it did before, with as many lexical and syntax errors. -/
structure Calm (I : σ → Prop) (e e' : Evaluation σ V) : Prop where
  going : e.Going I → e'.Going I
  lexical : e'.stats.lexicalErrors = e.stats.lexicalErrors
  syntactic : e'.stats.syntaxErrors = e.stats.syntaxErrors

theorem Calm.refl (e : Evaluation σ V) : e.Calm I e := ⟨id, rfl, rfl⟩

theorem Calm.trans (first : e.Calm I e') (second : e'.Calm I e'') : e.Calm I e'' :=
  ⟨second.going ∘ first.going, second.lexical.trans first.lexical,
    second.syntactic.trans first.syntactic⟩

theorem going_report (patient : h.Patient I) (kind : ErrorKind) (o : Origin) (m : Message)
    (going : e.Going I) : (e.report h kind o m).Going I := by
  obtain ⟨commands, host⟩ := patient.error
    ⟨kind, o, h.message e.host m.key.name m.args⟩ e.control e.host going.2
  exact ⟨(Control.stopped_obeyAll commands _).trans going.1, host⟩

theorem stats_report (h : Host σ V) (kind : ErrorKind) (o : Origin) (m : Message)
    (e : Evaluation σ V) : (e.report h kind o m).stats = e.stats.count kind := rfl

theorem Effect.calm (effect : Effect h e e') (patient : h.Patient I) : e.Calm I e' := by
  cases effect with
  | quiet same =>
    obtain ⟨control, host, _, _, _, stats⟩ := same
    refine ⟨fun going => ?_, by rw [stats], by rw [stats]⟩
    rw [Going, control, host]
    exact going
  | call => exact ⟨fun going => patient.answered going.1 going.2, rfl, rfl⟩
  | refusal =>
    exact ⟨fun going => going_report patient _ _ _ (patient.answered going.1 going.2), rfl, rfl⟩

theorem calm_runRule (patient : h.Patient I) {rule : UInt32} {lhs : List Nat}
    {rhs : List (List Nat)} (ran : runRule g h rule lhs rhs e = .ok e') : e.Calm I e' := by
  have effects := effects_runRule ran
  clear ran
  induction effects with
  | refl => exact .refl e
  | tail _ effect ih => exact ih.trans (effect.calm patient)

end Evaluation

end GrammarMachine
