import GrammarMachine.Proofs.Evaluation.Effects

/-!
Two evaluations of the same actions with two hosts. They have the same graph and do the same, for as
long as the hosts answer the same; a refusal may tell them apart, and from then on each goes its own
way, of which no more is known than what effects it can have.
-/

namespace GrammarMachine.Evaluation

variable {σ₁ σ₂ V : Type} {g : Grammar} {h₁ : Host σ₁ V} {h₂ : Host σ₂ V}
  {E D : Evaluation σ₁ V → Evaluation σ₂ V → Prop} {e₁ : Evaluation σ₁ V} {e₂ : Evaluation σ₂ V}
  {target : Nat}

/-- Evaluations in the relation `E` do the same, until they are told apart and then in the relation
`D`. -/
structure Twins (h₁ : Host σ₁ V) (h₂ : Host σ₂ V) (E D : Evaluation σ₁ V → Evaluation σ₂ V → Prop) :
    Prop where
  same : ∀ {e₁ e₂}, E e₁ e₂ →
    e₂.graph = e₁.graph ∧ e₂.queue = e₁.queue ∧ e₂.stats = e₁.stats ∧ e₂.locked = e₁.locked
  work : ∀ {e₁ e₂}, E e₁ e₂ → ∀ graph queue actions deferred replays,
    E { e₁ with graph, queue, stats := { e₁.stats with actions, deferred, replays } }
      { e₂ with graph, queue, stats := { e₂.stats with actions, deferred, replays } }
  call : ∀ {e₁ e₂}, E e₁ e₂ → e₁.locked = false → ∀ call,
    (h₂.execute call e₂.control e₂.host).1.result =
        (h₁.execute call e₁.control e₁.host).1.result ∧
      E (e₁.called h₁ call) (e₂.called h₂ call)
  refuse : ∀ {e₁ e₂}, E e₁ e₂ → ∀ o reason,
    E (e₁.report h₁ .semantic o ⟨.failed, [reason]⟩)
        (e₂.report h₂ .semantic o ⟨.failed, [reason]⟩) ∨
      D (e₁.report h₁ .semantic o ⟨.failed, [reason]⟩)
        (e₂.report h₂ .semantic o ⟨.failed, [reason]⟩)
  apart : ∀ {e₁ e₁' e₂ e₂'}, D e₁ e₂ → Effects h₁ e₁ e₁' → Effects h₂ e₂ e₂' → D e₁' e₂'

/-- Both computations lead to evaluations that are related still, or told apart. -/
abbrev Twinned (E D : Evaluation σ₁ V → Evaluation σ₂ V → Prop) :
    Except Fault (Evaluation σ₁ V) → Except Fault (Evaluation σ₂ V) → Prop :=
  Matches fun e₁ e₂ => E e₁ e₂ ∨ D e₁ e₂

theorem call_eq {σ : Type} (h : Host σ V) (function : UInt32) (params : List Nat) (o : Origin)
    (e : Evaluation σ V) :
    e.call h target function params o =
      match (h.execute ⟨function, o.pos, params, e.graph⟩ e.control e.host).1.result with
      | .ok produced => (e.called h ⟨function, o.pos, params, e.graph⟩).settle target
          (.user function (some produced.value) (produced.pos.getD o.pos) false)
      | .error reason =>
        ((e.called h ⟨function, o.pos, params, e.graph⟩).report h .semantic o
          ⟨.failed, [reason]⟩).settle target (.user function none o.pos true) := rfl

namespace Twins

theorem settle (twins : Twins h₁ h₂ E D) (related : E e₁ e₂) (node : Node V) :
    Twinned E D (e₁.settle target node) (e₂.settle target node) := by
  obtain ⟨graph, queue, c₁, s₁, stats⟩ := e₁
  obtain ⟨_, _, c₂, s₂, _⟩ := e₂
  obtain ⟨⟨⟩, ⟨⟩, ⟨⟩, _⟩ := twins.same related
  exact Matches.same fun (waiters, graph) _ => .pure (.inl (twins.work related graph _ _ _ _))

theorem copy (twins : Twins h₁ h₂ E D) (related : E e₁ e₂) (params : List Nat) :
    Twinned E D (e₁.copy target params) (e₂.copy target params) := by
  obtain ⟨graph, queue, c₁, s₁, stats⟩ := e₁
  obtain ⟨_, _, c₂, s₂, _⟩ := e₂
  obtain ⟨⟨⟩, ⟨⟩, ⟨⟩, _⟩ := twins.same related
  cases params with
  | nil =>
    intro _ _ impossible
    cases impossible
  | cons param others =>
    refine Matches.same fun source _ => ?_
    dsimp only
    split
    · exact .pure (.inl related)
    · refine Matches.same fun _ _ => Matches.same fun (waiters, graph) _ => .pure (.inl ?_)
      exact twins.work related graph _ _ _ _

theorem park (twins : Twins h₁ h₂ E D) (related : E e₁ e₂) (source : Nat) :
    Twinned E D (e₁.park target source) (e₂.park target source) := by
  obtain ⟨graph, queue, c₁, s₁, stats⟩ := e₁
  obtain ⟨_, _, c₂, s₂, _⟩ := e₂
  obtain ⟨⟨⟩, ⟨⟩, ⟨⟩, _⟩ := twins.same related
  exact Matches.same fun graph _ => .pure (.inl (twins.work related graph _ _ _ _))

/-- What follows when the two have been told apart. -/
theorem twinned_apart (twins : Twins h₁ h₂ E D) (apart : D e₁ e₂)
    {x₁ : Except Fault (Evaluation σ₁ V)} {x₂ : Except Fault (Evaluation σ₂ V)}
    (first : ∀ {e₁'}, x₁ = .ok e₁' → Effects h₁ e₁ e₁')
    (second : ∀ {e₂'}, x₂ = .ok e₂' → Effects h₂ e₂ e₂') : Twinned E D x₁ x₂ :=
  fun _ _ ran₁ ran₂ => .inr (twins.apart apart (first ran₁) (second ran₂))

theorem call_host (twins : Twins h₁ h₂ E D) (related : E e₁ e₂) (free : e₁.locked = false)
    (function : UInt32) (params : List Nat) (o : Origin) :
    Twinned E D (e₁.call h₁ target function params o) (e₂.call h₂ target function params o) := by
  obtain ⟨graph, _, _, _⟩ := twins.same related
  obtain ⟨answer, called⟩ := twins.call related free ⟨function, o.pos, params, e₁.graph⟩
  rw [call_eq, call_eq, graph, answer]
  split
  · exact twins.settle called _
  · next reason _ =>
    rcases twins.refuse called o reason with still | apart
    · exact twins.settle still _
    · exact twins.twinned_apart apart effects_settle effects_settle

theorem compute (twins : Twins h₁ h₂ E D) (related : E e₁ e₂) (action : SemanticAction)
    (params : List Nat) (o : Origin) :
    Twinned E D (e₁.compute h₁ target action params o) (e₂.compute h₂ target action params o) := by
  obtain ⟨graph, _, _, locked⟩ := twins.same related
  unfold Evaluation.compute
  rw [graph, locked]
  refine Matches.same fun error _ => ?_
  split
  · exact twins.settle related _
  · split
    · exact twins.settle related _
    · next open_ =>
      rw [Bool.not_eq_true, Bool.or_eq_false_iff] at open_
      exact twins.call_host related open_.2 _ _ _

theorem attempt (twins : Twins h₁ h₂ E D) (related : E e₁ e₂) (target : Nat) :
    Twinned E D (e₁.attempt g h₁ target) (e₂.attempt g h₂ target) := by
  obtain ⟨graph, _⟩ := twins.same related
  unfold Evaluation.attempt
  rw [graph]
  refine Matches.same fun node _ => ?_
  split
  · refine Matches.same fun rule _ => Matches.same fun action _ => ?_
    split
    · exact twins.copy related _
    · refine Matches.same fun found _ => ?_
      cases found with
      | some source => exact twins.park related source
      | none => exact twins.compute related _ _ _
  · exact .pure (.inl related)

theorem slot (twins : Twins h₁ h₂ E D) (related : E e₁ e₂) (lhs : List Nat)
    (rhs : List (List Nat)) (s : Slot) :
    (e₂.slot lhs rhs s).1 = (e₁.slot lhs rhs s).1 ∧
      E (e₁.slot lhs rhs s).2 (e₂.slot lhs rhs s).2 := by
  obtain ⟨graph, queue, c₁, s₁, stats⟩ := e₁
  obtain ⟨_, _, c₂, s₂, _⟩ := e₂
  obtain ⟨⟨⟩, ⟨⟩, ⟨⟩, _⟩ := twins.same related
  unfold Evaluation.slot
  dsimp only
  split
  · exact ⟨rfl, related⟩
  · exact ⟨rfl, twins.work related _ _ _ _ _⟩

theorem slots (twins : Twins h₁ h₂ E D) (related : E e₁ e₂) (lhs : List Nat)
    (rhs : List (List Nat)) (ss : List Slot) :
    (e₂.slots lhs rhs ss).1 = (e₁.slots lhs rhs ss).1 ∧
      E (e₁.slots lhs rhs ss).2 (e₂.slots lhs rhs ss).2 := by
  induction ss generalizing e₁ e₂ with
  | nil => exact ⟨rfl, related⟩
  | cons s rest ih =>
    obtain ⟨first, later⟩ := twins.slot related lhs rhs s
    obtain ⟨others, last⟩ := ih later
    exact ⟨congr (congrArg List.cons first) others, last⟩

theorem perform (twins : Twins h₁ h₂ E D) (related : E e₁ e₂) (rule : UInt32) (lhs : List Nat)
    (rhs : List (List Nat)) (index : Nat) (action : SemanticAction) :
    Twinned E D (e₁.perform g h₁ rule lhs rhs index action)
      (e₂.perform g h₂ rule lhs rhs index action) := by
  obtain ⟨named, related⟩ := twins.slot related lhs rhs action.target
  obtain ⟨params, related⟩ := twins.slots related lhs rhs action.params
  obtain ⟨graph, queue, stats, _⟩ := twins.same related
  unfold Evaluation.perform
  dsimp only
  rw [named, params, graph, queue, stats]
  refine Matches.same fun (bound, graph) _ => ?_
  have counted := twins.work related graph
    ((e₁.slot lhs rhs action.target).2.slots lhs rhs action.params).2.queue
    (((e₁.slot lhs rhs action.target).2.slots lhs rhs action.params).2.stats.actions + 1)
    ((e₁.slot lhs rhs action.target).2.slots lhs rhs action.params).2.stats.deferred
    ((e₁.slot lhs rhs action.target).2.slots lhs rhs action.params).2.stats.replays
  rw [stats] at counted
  dsimp only
  split
  · exact twins.attempt counted _
  · exact .pure (.inl counted)

theorem performAll (twins : Twins h₁ h₂ E D) (related : E e₁ e₂) (rule : UInt32) (lhs : List Nat)
    (rhs : List (List Nat)) (index : Nat) (actions : List SemanticAction) :
    Twinned E D (Evaluation.performAll g h₁ rule lhs rhs index actions e₁)
      (Evaluation.performAll g h₂ rule lhs rhs index actions e₂) := by
  induction actions generalizing index e₁ e₂ with
  | nil => exact .pure (.inl related)
  | cons action rest ih =>
    refine (twins.perform related rule lhs rhs index action).bind fun e₁' e₂' either => ?_
    rcases either with still | apart
    · exact ih still (index + 1)
    · exact twins.twinned_apart apart effects_performAll effects_performAll

theorem drainFrom (twins : Twins h₁ h₂ E D) (related : E e₁ e₂) (n : Nat) :
    Twinned E D (Evaluation.drainFrom g h₁ n e₁) (Evaluation.drainFrom g h₂ n e₂) := by
  induction n generalizing e₁ e₂ with
  | zero =>
    obtain ⟨graph, queue, c₁, s₁, stats⟩ := e₁
    obtain ⟨_, _, c₂, s₂, _⟩ := e₂
    obtain ⟨⟨⟩, ⟨⟩, ⟨⟩, _⟩ := twins.same related
    cases queue with
    | nil => exact .pure (.inl related)
    | cons id rest =>
      intro _ _ impossible
      cases impossible
  | succ n ih =>
    obtain ⟨graph, queue, stats, _⟩ := twins.same related
    cases queued : e₁.queue with
    | nil =>
      rw [drainFrom_nil queued, drainFrom_nil (queue.trans queued)]
      exact .pure (.inl related)
    | cons id rest =>
      have taken : E (e₁.taken rest) (e₂.taken rest) := by
        have counted := twins.work related e₁.graph rest e₁.stats.actions e₁.stats.deferred
          (e₁.stats.replays + 1)
        rw [stats] at counted
        rw [Evaluation.taken, Evaluation.taken, graph, stats]
        exact counted
      rw [drainFrom_cons queued, drainFrom_cons (queue.trans queued)]
      refine (twins.attempt taken id).bind fun e₁' e₂' either => ?_
      rcases either with still | apart
      · exact ih still
      · exact twins.twinned_apart apart effects_drainFrom effects_drainFrom

theorem drain (twins : Twins h₁ h₂ E D) (related : E e₁ e₂) :
    Twinned E D (Evaluation.drain g h₁ e₁) (Evaluation.drain g h₂ e₂) := by
  obtain ⟨graph, queue, _⟩ := twins.same related
  unfold Evaluation.drain attemptBound
  rw [graph, queue]
  split
  · exact .pure (.inl related)
  · exact twins.drainFrom related _

theorem runRule (twins : Twins h₁ h₂ E D) (related : E e₁ e₂) (rule : UInt32) (lhs : List Nat)
    (rhs : List (List Nat)) :
    Twinned E D (Evaluation.runRule g h₁ rule lhs rhs e₁)
      (Evaluation.runRule g h₂ rule lhs rhs e₂) := by
  refine Matches.same fun r _ => ?_
  refine (twins.performAll related rule lhs rhs 0 r.actions.toList).bind fun e₁' e₂' either => ?_
  rcases either with still | apart
  · exact twins.drain still
  · exact twins.twinned_apart apart effects_drain effects_drain

end Twins

end GrammarMachine.Evaluation
