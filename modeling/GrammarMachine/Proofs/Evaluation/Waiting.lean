import GrammarMachine.Proofs.Evaluation.Immediate

/-!
Actions that cannot be computed at once. An attribute with a parameter that is still pending waits
for it, and a copy of something pending becomes an alias. In both cases the state afterwards is
known to the last bit, and it is the same but for one or two nodes and a count.
-/

namespace GrammarMachine

namespace Graph

variable {V : Type} {graph : Graph V} {id : Nat} {node old : Node V}

theorem put_put (graph : Graph V) (id : Nat) (old node : Node V) :
    (graph.put id old).put id node = graph.put id node := by
  simp [put, Array.setIfInBounds_setIfInBounds]

theorem put_eq_self (here : graph.nodes[id]? = some node) : graph.put id node = graph := by
  obtain ⟨inside, found⟩ := Array.getElem?_eq_some_iff.1 here
  simp [put, Array.setIfInBounds_def, inside, ← found]

end Graph

namespace Evaluation

variable {σ V : Type} {g : Grammar} {h : Host σ V} {e e' : Evaluation σ V} {a : SemanticAction}
  {b : Binding} {target source p : Nat} {w ps : List Nat} {o : Origin} {state : Pending}
  {id : UInt32} {index : Nat} {lhs : List Nat} {rhs : List (List Nat)}

theorem attempt_of_copy (here : e.graph.nodes[target]? = some (.pending ⟨some b, w, o⟩))
    (action : g.action? b = some a) (copy : a.isCopy = true) :
    e.attempt g h target = e.copy target b.params := by
  obtain ⟨rule, there, at_index⟩ := Option.bind_eq_some_iff.1 action
  rw [attempt, Graph.node_eq_ok_iff.2 here, ok_bind]
  dsimp only
  rw [Grammar.rule, fetch_eq_ok_iff.2 there, ok_bind, fetch_eq_ok_iff.2 at_index, ok_bind,
    if_pos copy]

theorem attempt_of_pending (here : e.graph.nodes[target]? = some (.pending ⟨some b, w, o⟩))
    (action : g.action? b = some a) (other : a.isCopy = false)
    (first : e.graph.firstPending? b.params = .ok (some source)) :
    e.attempt g h target = e.park target source := by
  obtain ⟨rule, there, at_index⟩ := Option.bind_eq_some_iff.1 action
  rw [attempt, Graph.node_eq_ok_iff.2 here, ok_bind]
  dsimp only
  rw [Grammar.rule, fetch_eq_ok_iff.2 there, ok_bind, fetch_eq_ok_iff.2 at_index, ok_bind,
    if_neg (by simp [other]), first]
  rfl

/-- A parameter that is pending is waited for. -/
theorem attempt_eq_park (here : e.graph.nodes[target]? = some (.pending ⟨some b, w, o⟩))
    (action : g.action? b = some a) (other : a.isCopy = false)
    (first : e.graph.firstPending? b.params = .ok (some source))
    (there : e.graph.nodes[source]? = some (.pending state)) (new : target ∉ state.waiters) :
    e.attempt g h target = .ok { e with
      graph := e.graph.put source (.pending { state with waiters := state.waiters ++ [target] })
      stats := { e.stats with deferred := e.stats.deferred + 1 } } := by
  have await : e.graph.await target source = .ok (e.graph.put source
      (.pending { state with waiters := state.waiters ++ [target] })) := by
    rw [Graph.await, Graph.node_eq_ok_iff.2 there, ok_bind]
    dsimp only
    rw [if_neg (by simpa using new)]
    exact Graph.replace_eq (Graph.lt_size there)
  rw [attempt_of_pending here action other first, park]
  dsimp only
  rw [await]
  rfl

/-- A copy of something pending is an alias for it. -/
theorem attempt_eq_join (here : e.graph.nodes[target]? = some (.pending ⟨some b, [], o⟩))
    (action : g.action? b = some a) (copy : a.isCopy = true) (param : b.params = [p])
    (walk : e.graph.representative p = .ok source) (different : target ≠ source)
    (there : e.graph.nodes[source]? = some (.pending state)) :
    e.attempt g h target = .ok { e with graph := e.graph.put target (.link source) } := by
  have later : (e.graph.put target (.link source)).nodes[source]? = some (.pending state) := by
    rw [Graph.getElem?_put_ne different, there]
  rw [attempt_of_copy here action copy, param, Evaluation.copy]
  dsimp only
  rw [walk, ok_bind, if_neg (Ne.symm different), define_eq here, ok_bind]
  dsimp only [Graph.handOver]
  rw [Graph.node_eq_ok_iff.2 later, ok_bind]
  simp [Graph.replace_eq (Graph.lt_size later), Graph.put_eq_self later, pure, Except.pure]

/-- An action waits for its first parameter, with those who wait for its own attribute. -/
theorem yields_perform_park (sound : g.Sound) (healthy : e.Sound g) (a : SemanticAction)
    (id : UInt32) (index : Nat) (lhs : List Nat) (rhs : List (List Nat))
    (named : a.target.find? lhs rhs = some target)
    (params : List.Forall₂ (fun s p => s.find? lhs rhs = some p) a.params (p :: ps))
    (fresh : e.graph.nodes[target]? = some (.pending ⟨none, w, o⟩))
    (inside : ∀ q ∈ ps, q < e.graph.size) (action : g.action? ⟨id, index, p :: ps⟩ = some a)
    (other : a.isCopy = false) (there : e.graph.nodes[p]? = some (.pending state))
    (different : target ≠ p) (new : target ∉ state.waiters) :
    Yields (e.perform g h id lhs rhs index a) fun e' => e' = { e with
        graph := (e.graph.put target (.pending ⟨some ⟨id, index, p :: ps⟩, w, o⟩)).put p
          (.pending { state with waiters := state.waiters ++ [target] })
        stats := { e.stats with
          actions := e.stats.actions + 1
          deferred := e.stats.deferred + 1 } } ∧
      e'.Sound g ∧ e.graph.Grows e'.graph := by
  have all : ∀ q ∈ p :: ps, q < e.graph.size :=
    List.forall_mem_cons.2 ⟨Graph.lt_size there, inside⟩
  obtain ⟨binds, here, e', performed, attempted⟩ := yields_perform_fresh (h := h) sound healthy
    a id index lhs rhs named params fresh all action
  have there' := (@Graph.getElem?_put_ne _ _ _ (.pending ⟨some ⟨id, index, p :: ps⟩, w, o⟩) _
    different).trans there
  have first := Graph.firstPending?_of_pending (Graph.representative_of_not_link there' rfl)
    (Graph.pendingAt_eq there') ps
  have parks := (perform_eq named params fresh).symm.trans performed
  cases parks.symm.trans (attempt_eq_park here action other first there' new)
  exact .of_eq performed ⟨rfl, attempted.sound binds.sound, binds.grows.trans attempted.grows⟩

/-- A copy of something pending, for which nobody waits. -/
theorem yields_perform_join (sound : g.Sound) (healthy : e.Sound g) (a : SemanticAction)
    (id : UInt32) (index : Nat) (lhs : List Nat) (rhs : List (List Nat))
    (named : a.target.find? lhs rhs = some target)
    (params : List.Forall₂ (fun s p => s.find? lhs rhs = some p) a.params [p])
    (fresh : e.graph.nodes[target]? = some (.pending ⟨none, [], o⟩))
    (action : g.action? ⟨id, index, [p]⟩ = some a) (copy : a.isCopy = true)
    (walk : e.graph.representative p = .ok source) (different : target ≠ source)
    (there : e.graph.nodes[source]? = some (.pending state)) :
    Yields (e.perform g h id lhs rhs index a) fun e' => e' = { e with
        graph := e.graph.put target (.link source)
        stats := { e.stats with actions := e.stats.actions + 1 } } ∧
      e'.Sound g ∧ e.graph.Grows e'.graph := by
  have inside : ∀ q ∈ [p], q < e.graph.size :=
    List.forall_mem_singleton.2 (Graph.lt_size_of_representative walk)
  obtain ⟨binds, here, e', performed, attempted⟩ := yields_perform_fresh (h := h) sound healthy
    a id index lhs rhs named params fresh inside action
  have there' := (@Graph.getElem?_put_ne _ _ _ (.pending ⟨some ⟨id, index, [p]⟩, [], o⟩) _
    different).trans there
  have walk' := binds.grows.representative binds.sound.graph.linked walk there' rfl
  have joins := (perform_eq named params fresh).symm.trans performed
  cases joins.symm.trans (attempt_eq_join here action copy rfl walk' different there')
  refine .of_eq performed
    ⟨?_, attempted.sound binds.sound, binds.grows.trans attempted.grows⟩
  dsimp only [defined]
  rw [Graph.put_put]

/-- If they woke up nothing, that is all. -/
theorem Ran.eq_of_performed {e₁ : Evaluation σ V} {r : Rule} (ran : Ran g h id lhs rhs e e')
    (rule : g.rules[id.toNat]? = some r)
    (performed : performAll g h id lhs rhs 0 r.actions.toList e = .ok e₁) (empty : e₁.queue = []) :
    e' = e₁ := by
  have whole := ran.result
  rw [runRule_eq rule performed, drain, empty] at whole
  cases whole
  rfl

end Evaluation

end GrammarMachine
