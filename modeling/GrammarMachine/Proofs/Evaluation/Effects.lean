import GrammarMachine.Proofs.Evaluation.History
import Mathlib.Logic.Relation

/-!
What semantic actions do outside the graph. They count actions, waits and attempts, they call the
host unless they are locked, and they report what the host refuses; nothing else that a host can see
or change is touched.
-/

namespace GrammarMachine.Evaluation

variable {σ V : Type} {g : Grammar} {h : Host σ V} {e e' : Evaluation σ V} {target : Nat}

inductive Effect (h : Host σ V) : Evaluation σ V → Evaluation σ V → Prop
  | quiet {e e' : Evaluation σ V} (same : e.Quiet e') : Effect h e e'
  | call {e : Evaluation σ V} (free : e.locked = false) (call : Call V) :
      Effect h e (e.called h call)
  | refusal {e : Evaluation σ V} (free : e.locked = false) (call : Call V) (o : Origin)
      (reason : String) :
      Effect h e ((e.called h call).report h .semantic o ⟨.failed, [reason]⟩)

/-- One effect after the other. -/
abbrev Effects (h : Host σ V) : Evaluation σ V → Evaluation σ V → Prop :=
  Relation.ReflTransGen (Effect h)

theorem Quiet.effects (same : e.Quiet e') : Effects h e e' := .single (.quiet same)

theorem effects_settle {node : Node V} (settled : e.settle target node = .ok e') :
    Effects h e e' := by
  obtain ⟨_, _, same⟩ := bind_eq_ok_iff.1 settled
  cases same
  exact Quiet.effects ⟨rfl, rfl, _, _, _, rfl⟩

theorem effects_copy {params : List Nat} (copied : e.copy target params = .ok e') :
    Effects h e e' := by
  cases params with
  | nil => cases copied
  | cons param others =>
    obtain ⟨source, _, rest⟩ := bind_eq_ok_iff.1 copied
    split at rest
    · cases rest
      exact .refl
    · obtain ⟨_, _, rest⟩ := bind_eq_ok_iff.1 rest
      obtain ⟨_, _, same⟩ := bind_eq_ok_iff.1 rest
      cases same
      exact Quiet.effects ⟨rfl, rfl, _, _, _, rfl⟩

theorem effects_park {source : Nat} (parked : e.park target source = .ok e') :
    Effects h e e' := by
  obtain ⟨_, _, same⟩ := bind_eq_ok_iff.1 parked
  cases same
  exact Quiet.effects ⟨rfl, rfl, _, _, _, rfl⟩

theorem effects_call {function : UInt32} {params : List Nat} {o : Origin}
    (free : e.locked = false) (called : e.call h target function params o = .ok e') :
    Effects h e e' := by
  unfold call at called
  dsimp only at called
  split at called
  · exact .head (.call free ⟨function, o.pos, params, e.graph⟩) (effects_settle called)
  · next reason _ =>
    exact .head (.refusal free ⟨function, o.pos, params, e.graph⟩ o reason) (effects_settle called)

theorem effects_compute {action : SemanticAction} {params : List Nat} {o : Origin}
    (computed : e.compute h target action params o = .ok e') : Effects h e e' := by
  obtain ⟨error, _, rest⟩ := bind_eq_ok_iff.1 computed
  split at rest
  · exact effects_settle rest
  · split at rest
    · exact effects_settle rest
    · next open_ =>
      rw [Bool.not_eq_true, Bool.or_eq_false_iff] at open_
      exact effects_call open_.2 rest

theorem effects_attempt (attempted : e.attempt g h target = .ok e') : Effects h e e' := by
  obtain ⟨node, _, rest⟩ := bind_eq_ok_iff.1 attempted
  split at rest
  · obtain ⟨rule, _, rest⟩ := bind_eq_ok_iff.1 rest
    obtain ⟨action, _, rest⟩ := bind_eq_ok_iff.1 rest
    split at rest
    · exact effects_copy rest
    · obtain ⟨found, _, rest⟩ := bind_eq_ok_iff.1 rest
      cases found with
      | some source => exact effects_park rest
      | none => exact effects_compute rest
  · cases rest
    exact .refl

theorem effects_slot (lhs : List Nat) (rhs : List (List Nat)) (s : Slot) (e : Evaluation σ V) :
    Effects h e (e.slot lhs rhs s).2 := by
  unfold slot
  dsimp only
  split
  · exact .refl
  · exact Quiet.effects ⟨rfl, rfl, _, _, _, rfl⟩

theorem effects_slots (lhs : List Nat) (rhs : List (List Nat)) (ss : List Slot)
    (e : Evaluation σ V) : Effects h e (e.slots lhs rhs ss).2 := by
  induction ss generalizing e with
  | nil => exact .refl
  | cons s rest ih => exact (effects_slot lhs rhs s e).trans (ih _)

theorem effects_perform {rule : UInt32} {lhs : List Nat} {rhs : List (List Nat)} {index : Nat}
    {action : SemanticAction} (performed : e.perform g h rule lhs rhs index action = .ok e') :
    Effects h e e' := by
  have named : Effects h e ((e.slot lhs rhs action.target).2.slots lhs rhs action.params).2 :=
    (effects_slot lhs rhs action.target e).trans (effects_slots lhs rhs action.params _)
  unfold perform at performed
  dsimp only at performed
  obtain ⟨⟨bound, graph⟩, _, rest⟩ := bind_eq_ok_iff.1 performed
  refine named.trans ?_
  dsimp only at rest
  split at rest
  · refine .head (.quiet ?_) (effects_attempt rest)
    exact ⟨rfl, rfl, _, _, _, rfl⟩
  · cases rest
    exact Quiet.effects ⟨rfl, rfl, _, _, _, rfl⟩

theorem effects_performAll {rule : UInt32} {lhs : List Nat} {rhs : List (List Nat)} {index : Nat}
    {actions : List SemanticAction}
    (performed : performAll g h rule lhs rhs index actions e = .ok e') : Effects h e e' := by
  induction actions generalizing index e with
  | nil =>
    cases performed
    exact .refl
  | cons action rest ih =>
    obtain ⟨_, first, others⟩ := bind_eq_ok_iff.1 performed
    exact (effects_perform first).trans (ih others)

theorem effects_drainFrom {n : Nat} (drained : drainFrom g h n e = .ok e') : Effects h e e' := by
  induction n generalizing e with
  | zero =>
    obtain ⟨graph, queue, control, host, stats⟩ := e
    cases queue with
    | nil =>
      cases drained
      exact .refl
    | cons id rest => cases drained
  | succ n ih =>
    cases queued : e.queue with
    | nil =>
      rw [drainFrom_nil queued] at drained
      cases drained
      exact .refl
    | cons id rest =>
      rw [drainFrom_cons queued] at drained
      obtain ⟨_, first, others⟩ := bind_eq_ok_iff.1 drained
      have taken : e.Quiet (e.taken rest) := ⟨rfl, rfl, _, _, _, rfl⟩
      exact .head (.quiet taken) ((effects_attempt first).trans (ih others))

theorem effects_drain (drained : drain g h e = .ok e') : Effects h e e' := by
  unfold drain at drained
  split at drained
  · cases drained
    exact .refl
  · exact effects_drainFrom drained

theorem effects_runRule {rule : UInt32} {lhs : List Nat} {rhs : List (List Nat)}
    (ran : runRule g h rule lhs rhs e = .ok e') : Effects h e e' := by
  obtain ⟨_, _, rest⟩ := bind_eq_ok_iff.1 ran
  obtain ⟨_, performed, drained⟩ := bind_eq_ok_iff.1 rest
  exact (effects_performAll performed).trans (effects_drain drained)

end GrammarMachine.Evaluation
