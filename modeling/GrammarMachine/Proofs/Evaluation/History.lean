import GrammarMachine.Proofs.Evaluation.Moves

/-!
The history of an evaluation: which attributes were declared, which action became the definition of
which attribute, and every attempt with the states around it. It is read off the run itself, so each
state in it is one that the run was in. On a sound state a rule runs to its end, the queue is empty
afterwards, and the history tells all that was done.
-/

namespace GrammarMachine

namespace Graph

variable {V : Type} {graph graph' : Graph V} {target : Nat} {b : Binding}

theorem bind_unbound {w : List Nat} {o : Origin}
    (here : graph.nodes[target]? = some (.pending ⟨none, w, o⟩)) :
    graph.bind target b = .ok (true, graph.put target (.pending ⟨some b, w, o⟩)) := by
  simp [Graph.bind, node_eq_ok_iff.2 here, replace_eq (lt_size here), pure, Except.pure]

theorem bind_other {node : Node V} (here : graph.nodes[target]? = some node)
    (other : ∀ w o, node ≠ .pending ⟨none, w, o⟩) : graph.bind target b = .ok (false, graph) := by
  unfold Graph.bind
  refine bind_eq_ok_iff.2 ⟨node, node_eq_ok_iff.2 here, ?_⟩
  split
  · next w o => exact absurd rfl (other w o)
  · rfl

/-- The attributes of a rule are nodes of the graph. -/
structure Covers (graph : Graph V) (lhs : List Nat) (rhs : List (List Nat)) : Prop where
  lhs : ∀ id ∈ lhs, id < graph.size
  rhs : ∀ attrs ∈ rhs, ∀ id ∈ attrs, id < graph.size

theorem Covers.grows {lhs : List Nat} {rhs : List (List Nat)} (covers : graph.Covers lhs rhs)
    (grows : graph.Grows graph') : graph'.Covers lhs rhs where
  lhs id mem := Nat.lt_of_lt_of_le (covers.lhs id mem) grows.size
  rhs attrs mem id inside := Nat.lt_of_lt_of_le (covers.rhs attrs mem id inside) grows.size

end Graph

namespace Evaluation

section Histories

variable {α β σ V : Type}

/-- What is told of the result of a computation, if there is one. -/
def telling (x : Except Fault α) (tell : α → List β) : List β :=
  match x with
  | .ok a => tell a
  | .error _ => []

@[simp] theorem telling_ok (a : α) (tell : α → List β) : telling (.ok a) tell = tell a :=
  rfl

def attemptHistory (g : Grammar) (h : Host σ V) (target : Nat) (e : Evaluation σ V) :
    List (Event σ V) :=
  telling (e.attempt g h target) fun after => [.attempted target e after]

def performHistory (g : Grammar) (h : Host σ V) (rule : UInt32) (lhs : List Nat)
    (rhs : List (List Nat)) (index : Nat) (action : SemanticAction) (e : Evaluation σ V) :
    List (Event σ V) :=
  let (target, e) := e.slot lhs rhs action.target
  let (params, ⟨graph, queue, control, host, stats⟩) := e.slots lhs rhs action.params
  let stats := { stats with actions := stats.actions + 1 }
  telling (graph.bind target ⟨rule, index, params⟩) fun (bound, graph) =>
    if bound then
      .bound target ⟨rule, index, params⟩ ::
        attemptHistory g h target ⟨graph, queue, control, host, stats⟩
    else []

def performAllHistory (g : Grammar) (h : Host σ V) (rule : UInt32) (lhs : List Nat)
    (rhs : List (List Nat)) : Nat → List SemanticAction → Evaluation σ V → List (Event σ V)
  | _, [], _ => []
  | index, action :: rest, e =>
    performHistory g h rule lhs rhs index action e ++
      telling (e.perform g h rule lhs rhs index action)
        (performAllHistory g h rule lhs rhs (index + 1) rest)

def drainHistory (g : Grammar) (h : Host σ V) : Nat → Evaluation σ V → List (Event σ V)
  | 0, _ => []
  | n + 1, e =>
    match e.queue with
    | [] => []
    | id :: rest =>
      attemptHistory g h id (e.taken rest) ++
        telling ((e.taken rest).attempt g h id) (drainHistory g h n)

def runRuleHistory (g : Grammar) (h : Host σ V) (rule : UInt32) (lhs : List Nat)
    (rhs : List (List Nat)) (e : Evaluation σ V) : List (Event σ V) :=
  telling (g.rule rule) fun r =>
    performAllHistory g h rule lhs rhs 0 r.actions.toList e ++
      telling (performAll g h rule lhs rhs 0 r.actions.toList e) fun e =>
        drainHistory g h e.attemptBound e

end Histories

variable {σ V : Type} {g : Grammar} {h : Host σ V} {e e' : Evaluation σ V} {lhs : List Nat}
  {rhs : List (List Nat)}

theorem deeds_slot {s : Slot} {id : Nat} (covers : e.graph.Covers lhs rhs)
    (named : e.slot lhs rhs s = (id, e')) : Deeds g h e [] e' ∧ id < e'.graph.size := by
  unfold slot at named
  dsimp only at named
  split at named
  · next there =>
    cases named
    refine ⟨.refl, ?_⟩
    have mem := List.mem_of_getElem? there
    split at mem
    · exact covers.lhs id mem
    · cases place : rhs[s.depth.toNat - 1]? with
      | none => simp [place] at mem
      | some attrs =>
        rw [place] at mem
        exact covers.rhs attrs (List.mem_of_getElem? place) id mem
  · cases named
    refine ⟨.of_move (.leaf rfl) fun _ => ⟨rfl, rfl, _, _, _, rfl⟩, ?_⟩
    exact Nat.lt_of_lt_of_eq (Nat.lt_succ_self _) (Graph.size_alloc e.graph .null).symm

theorem deeds_slots {ss : List Slot} {ids : List Nat} (covers : e.graph.Covers lhs rhs)
    (named : e.slots lhs rhs ss = (ids, e')) :
    Deeds g h e [] e' ∧ ids.length = ss.length ∧ ∀ id ∈ ids, id < e'.graph.size := by
  induction ss generalizing e ids with
  | nil =>
    cases named
    exact ⟨.refl, rfl, fun _ mem => nomatch mem⟩
  | cons s rest ih =>
    obtain ⟨⟨id, e₁⟩, first⟩ : ∃ found, e.slot lhs rhs s = found := ⟨_, rfl⟩
    obtain ⟨⟨others, e₂⟩, second⟩ : ∃ found, e₁.slots lhs rhs rest = found := ⟨_, rfl⟩
    rw [slots, first] at named
    dsimp only at named
    rw [second] at named
    cases named
    obtain ⟨run, inside⟩ := deeds_slot (h := h) (g := g) covers first
    obtain ⟨run', length, all⟩ := ih (covers.grows run.runs.grows) second
    refine ⟨run.trans run', by simp [length], ?_⟩
    exact List.forall_mem_cons.2 ⟨Nat.lt_of_lt_of_le inside run'.runs.grows.size, all⟩

theorem attemptHistory_eq {target : Nat} (result : e.attempt g h target = .ok e') :
    attemptHistory g h target e = [.attempted target e e'] := by
  unfold attemptHistory
  rw [result]
  rfl

theorem yields_perform (sound : g.Sound) (healthy : e.Sound g) (covers : e.graph.Covers lhs rhs)
    {rule : UInt32} {index : Nat} {action : SemanticAction}
    (there : g.action? ⟨rule, index, []⟩ = some action) :
    Yields (e.perform g h rule lhs rhs index action)
      (Deeds g h e (performHistory g h rule lhs rhs index action e)) := by
  obtain ⟨⟨target, e₁⟩, first⟩ : ∃ found, e.slot lhs rhs action.target = found := ⟨_, rfl⟩
  obtain ⟨⟨params, e₂⟩, second⟩ : ∃ found, e₁.slots lhs rhs action.params = found := ⟨_, rfl⟩
  obtain ⟨run₁, target_inside⟩ := deeds_slot (h := h) (g := g) covers first
  obtain ⟨run₂, length, params_inside⟩ :=
    deeds_slots (h := h) (g := g) (covers.grows run₁.runs.grows) second
  have target_inside := Nat.lt_of_lt_of_le target_inside run₂.runs.grows.size
  have run := run₁.trans run₂
  let e₃ : Evaluation σ V := { e₂ with stats := { e₂.stats with actions := e₂.stats.actions + 1 } }
  have run : Deeds g h e [] e₃ :=
    run.step (.note ⟨rfl, rfl, rfl, rfl⟩) fun _ => ⟨rfl, rfl, _, _, _, rfl⟩
  have healthy := run.runs.sound healthy
  unfold perform performHistory
  rw [first]
  dsimp only
  rw [second]
  dsimp only
  obtain ⟨node, here⟩ := Graph.exists_node target_inside
  by_cases unbound : ∃ w o, node = .pending ⟨none, w, o⟩
  · obtain ⟨w, o, rfl⟩ := unbound
    rw [Graph.bind_unbound here]
    simp only [ok_bind, telling_ok, if_true]
    have defines : g.Defines ⟨rule, index, params⟩ action := ⟨there, length⟩
    have ready := healthy.defined here defines params_inside
    have inside : target < (e₃.defined target ⟨rule, index, params⟩ w o).graph.size := by
      rwa [defined, Graph.size_put]
    obtain ⟨e', result, attempted⟩ := yields_attempt (h := h) sound ready inside
    have told := attemptHistory_eq result
    have move := Move.define (e := e₃) here defines params_inside attempted
    refine .of_eq result ?_
    have whole := run.step move fun same => absurd same (List.cons_ne_nil _ _)
    rw [List.nil_append, ← told] at whole
    exact whole
  · rw [Graph.bind_other here fun w o same => unbound ⟨w, o, same⟩]
    exact .pure run

theorem yields_performAll (sound : g.Sound) (healthy : e.Sound g)
    (covers : e.graph.Covers lhs rhs) {rule : UInt32} {index : Nat} {actions : List SemanticAction}
    (there : ∀ i action, actions[i]? = some action →
      g.action? ⟨rule, index + i, []⟩ = some action) :
    Yields (performAll g h rule lhs rhs index actions e)
      (Deeds g h e (performAllHistory g h rule lhs rhs index actions e)) := by
  induction actions generalizing index e with
  | nil => exact .ok .refl
  | cons action rest ih =>
    have first : g.action? ⟨rule, index, []⟩ = some action := there 0 action rfl
    obtain ⟨e', result, run⟩ := yields_perform (h := h) sound healthy covers first
    unfold performAll performAllHistory
    rw [result]
    refine (ih (run.runs.sound healthy) (covers.grows run.runs.grows) ?_).mono fun _ => run.trans
    intro i other at_i
    rw [Nat.add_right_comm]
    exact there (i + 1) other at_i

theorem drainFrom_nil {n : Nat} (empty : e.queue = []) : drainFrom g h n e = .ok e := by
  obtain ⟨graph, queue, control, host, stats⟩ := e
  cases empty
  cases n <;> rfl

theorem drainFrom_cons {n id : Nat} {rest : List Nat} (queued : e.queue = id :: rest) :
    drainFrom g h (n + 1) e = (e.taken rest).attempt g h id >>= drainFrom g h n := by
  obtain ⟨graph, queue, control, host, stats⟩ := e
  cases queued
  rfl

theorem drainHistory_nil {n : Nat} (empty : e.queue = []) : drainHistory g h n e = [] := by
  cases n with
  | zero => rfl
  | succ n => simp [drainHistory, empty]

theorem drainHistory_cons {n id : Nat} {rest : List Nat} (queued : e.queue = id :: rest)
    (result : (e.taken rest).attempt g h id = .ok e') :
    drainHistory g h (n + 1) e = .attempted id (e.taken rest) e' :: drainHistory g h n e' := by
  simp [drainHistory, queued, result, attemptHistory_eq result]

/-- Enough attempts empty the queue: `n` covers, for every attribute that can still be settled, a
round over all who wait or are queued, and one more round over those queued now. -/
theorem yields_drainFrom (sound : g.Sound) (healthy : e.Sound g) {n bound : Nat}
    (within : e.queue.length + e.graph.parked.length ≤ bound)
    (enough : e.graph.pendingCount * (bound + 1) + e.queue.length ≤ n) :
    Yields (drainFrom g h n e) fun e' => Deeds g h e (drainHistory g h n e) e' ∧ e'.queue = [] := by
  induction n generalizing e with
  | zero =>
    have empty : e.queue = [] := List.eq_nil_of_length_eq_zero (by omega)
    exact .of_eq (drainFrom_nil empty) ⟨.refl, empty⟩
  | succ n ih =>
    cases queued : e.queue with
    | nil =>
      rw [drainHistory_nil queued]
      exact .of_eq (drainFrom_nil queued) ⟨.refl, queued⟩
    | cons id rest =>
      have ready : (e.taken rest).Sound g := healthy.taken queued
      have inside : id < e.graph.size := healthy.queue id (queued ▸ List.mem_cons_self)
      obtain ⟨e', result, attempted⟩ := yields_attempt (h := h) sound ready inside
      have run := Deeds.of_move (.replay queued attempted) fun same =>
        absurd same (List.cons_ne_nil _ _)
      rw [drainFrom_cons queued, drainHistory_cons queued result, result]
      rw [queued, List.length_cons] at within enough
      suffices fits : e'.queue.length + e'.graph.parked.length ≤ bound ∧
          e'.graph.pendingCount * (bound + 1) + e'.queue.length ≤ n from
        (ih (attempted.sound ready) fits.1 fits.2).mono fun _ ⟨later, empty⟩ =>
          ⟨run.trans later, empty⟩
      rcases attempted.counts with ⟨pending, queue, parked⟩ | ⟨fewer, perm⟩
      · rw [pending, queue]
        simp only [taken] at parked ⊢
        omega
      · have total := perm.length_eq
        simp only [List.length_append, taken] at total fewer
        rw [← fewer, Nat.add_mul] at enough
        omega

theorem yields_drain (sound : g.Sound) (healthy : e.Sound g) :
    Yields (drain g h e) fun e' =>
      Deeds g h e (drainHistory g h e.attemptBound e) e' ∧ e'.queue = [] := by
  unfold drain
  split
  · next empty =>
    have empty := List.isEmpty_iff.1 empty
    rw [drainHistory_nil empty]
    exact .ok ⟨.refl, empty⟩
  · refine yields_drainFrom sound healthy (Nat.le_refl _) ?_
    unfold attemptBound
    rw [Graph.waiterCount_eq, Nat.add_mul]
    omega

/-- The actions of a rule, as bindings name them. -/
theorem action?_of_rule {rule : UInt32} {r : Rule} (there : g.rules[rule.toNat]? = some r) (i : Nat)
    (action : SemanticAction) (at_i : r.actions.toList[i]? = some action) :
    g.action? ⟨rule, 0 + i, []⟩ = some action := by
  simp only [Grammar.action?, there, Option.bind_some, Nat.zero_add]
  rwa [Array.getElem?_toList] at at_i

/-- A rule runs to its end, with nothing left to attempt. -/
theorem yields_runRule (sound : g.Sound) (healthy : e.Sound g) (covers : e.graph.Covers lhs rhs)
    {rule : UInt32} (inside : rule.toNat < g.rules.size) :
    Yields (runRule g h rule lhs rhs e) fun e' =>
      Deeds g h e (runRuleHistory g h rule lhs rhs e) e' ∧ e'.queue = [] := by
  obtain ⟨r, there⟩ : ∃ r, g.rules[rule.toNat]? = some r := ⟨_, Array.getElem?_eq_getElem inside⟩
  have found : g.rule rule = .ok r := fetch_eq_ok_iff.2 there
  obtain ⟨e₁, result, run⟩ :=
    yields_performAll (h := h) sound healthy covers (action?_of_rule there)
  unfold runRule runRuleHistory
  rw [found]
  simp only [ok_bind, telling_ok, result]
  exact (yields_drain sound (run.runs.sound healthy)).mono fun _ ⟨later, empty⟩ =>
    ⟨run.trans later, empty⟩

/-- A rule has been run, from a sound state with nothing to attempt. -/
structure Ran (g : Grammar) (h : Host σ V) (id : UInt32) (lhs : List Nat) (rhs : List (List Nat))
    (e e' : Evaluation σ V) : Prop where
  sound : e.Sound g
  queue : e.queue = []
  result : runRule g h id lhs rhs e = .ok e'
  sound' : e'.Sound g
  grows : e.graph.Grows e'.graph

end Evaluation

end GrammarMachine
