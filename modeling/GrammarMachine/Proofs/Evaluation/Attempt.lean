import GrammarMachine.Parse.Evaluation
import GrammarMachine.Proofs.Grammar.Sound
import GrammarMachine.Proofs.Graph.Waiters

/-!
What an attempt can do. `Attempted` lists the cases, each with the state it leaves behind; on a
sound state every attempt succeeds and is one of them. All that is proved of evaluation later on is
proved of these cases.
-/

namespace GrammarMachine

/-- The action that a binding names. -/
def Grammar.action? (g : Grammar) (b : Binding) : Option SemanticAction :=
  g.rules[b.rule.toNat]?.bind fun r => r.actions[b.action]?

/-- A binding to an action of the grammar, with a node for each of its parameters. -/
structure Grammar.Defines (g : Grammar) (b : Binding) (a : SemanticAction) : Prop where
  action : g.action? b = some a
  params : b.params.length = a.params.length

/-- Every number in the graph names a node of it, every binding an action, and links lead on. -/
structure Graph.Sound {V : Type} (g : Grammar) (graph : Graph V) : Prop where
  linked : graph.Linked
  bound : ∀ {id : Nat} {b : Binding} {w : List Nat} {o : Origin},
    graph.nodes[id]? = some (.pending ⟨some b, w, o⟩) →
      (∃ a, g.Defines b a) ∧ ∀ p ∈ b.params, p < graph.size
  parked : ∀ n ∈ graph.parked, n < graph.size

namespace Evaluation

variable {σ V : Type} {g : Grammar} {h : Host σ V} {e e' e₁ : Evaluation σ V} {target : Nat}

structure Sound (g : Grammar) (e : Evaluation σ V) : Prop where
  graph : e.graph.Sound g
  queue : ∀ n ∈ e.queue, n < e.graph.size

/-- The state after the host has answered a call. -/
def called (h : Host σ V) (call : Call V) (e : Evaluation σ V) : Evaluation σ V :=
  let answer := h.execute call e.control e.host
  { e with
    control := e.control.obeyAll answer.1.commands
    host := answer.2
    stats := { e.stats with hardCalls := e.stats.hardCalls + 1 } }

/-- The node that an action makes of known parameters, and the state after asking the host. -/
inductive Computed (h : Host σ V) (a : SemanticAction) (ps : List Nat) (o : Origin)
    (e : Evaluation σ V) : Node V → Evaluation σ V → Prop
  | term {flags : List Bool} (errors : ps.mapM e.graph.isError = .ok flags) (soft : a.soft = true) :
      Computed h a ps o e (.term a.function ps o.pos (flags.contains true)) e
  | null {flags : List Bool} (errors : ps.mapM e.graph.isError = .ok flags) (hard : a.soft = false)
      (blocked : (flags.contains true || e.locked) = true) : Computed h a ps o e .null e
  | value {flags : List Bool} {produced : Produced V}
      (errors : ps.mapM e.graph.isError = .ok flags) (hard : a.soft = false)
      (free : (flags.contains true || e.locked) = false)
      (answer : (h.execute ⟨a.function, o.pos, ps, e.graph⟩ e.control e.host).1.result =
        .ok produced) :
      Computed h a ps o e
        (.user a.function (some produced.value) (produced.pos.getD o.pos) false)
        (e.called h ⟨a.function, o.pos, ps, e.graph⟩)
  | refusal {flags : List Bool} {reason : String}
      (errors : ps.mapM e.graph.isError = .ok flags) (hard : a.soft = false)
      (free : (flags.contains true || e.locked) = false)
      (answer : (h.execute ⟨a.function, o.pos, ps, e.graph⟩ e.control e.host).1.result =
        .error reason) :
      Computed h a ps o e (.user a.function none o.pos true)
        ((e.called h ⟨a.function, o.pos, ps, e.graph⟩).report h .semantic o ⟨.failed, [reason]⟩)

/-- The host neither sees the queue nor touches the graph, and waiting is not its business. -/
structure Undisturbed (e e' : Evaluation σ V) : Prop where
  graph : e'.graph = e.graph
  queue : e'.queue = e.queue
  deferred : e'.stats.deferred = e.stats.deferred
  replays : e'.stats.replays = e.stats.replays

theorem Undisturbed.refl (e : Evaluation σ V) : e.Undisturbed e := ⟨rfl, rfl, rfl, rfl⟩

theorem Undisturbed.trans {e'' : Evaluation σ V} (first : e.Undisturbed e')
    (second : e'.Undisturbed e'') : e.Undisturbed e'' :=
  ⟨second.graph.trans first.graph, second.queue.trans first.queue,
    second.deferred.trans first.deferred, second.replays.trans first.replays⟩

theorem undisturbed_called (h : Host σ V) (call : Call V) (e : Evaluation σ V) :
    e.Undisturbed (e.called h call) :=
  ⟨rfl, rfl, rfl, rfl⟩

theorem undisturbed_report (h : Host σ V) (kind : ErrorKind) (o : Origin) (m : Message)
    (e : Evaluation σ V) : e.Undisturbed (e.report h kind o m) := by
  cases kind <;> exact ⟨rfl, rfl, rfl, rfl⟩

theorem Computed.undisturbed {a : SemanticAction} {ps : List Nat} {o : Origin} {node : Node V}
    (computed : Computed h a ps o e node e₁) : e.Undisturbed e₁ := by
  cases computed with
  | term => exact .refl e
  | null => exact .refl e
  | value => exact undisturbed_called h _ e
  | refusal => exact (undisturbed_called h _ e).trans (undisturbed_report h _ _ _ _)

/-- What is computed is a value, not a link and not something to wait for. -/
theorem Computed.plain {a : SemanticAction} {ps : List Nat} {o : Origin} {node : Node V}
    (computed : Computed h a ps o e node e₁) :
    node.isPending = false ∧ node.isLink = false ∧ node.waiters = [] := by
  cases computed <;> exact ⟨rfl, rfl, rfl⟩

/-- The cases of an attempt at `target`. -/
inductive Attempted (g : Grammar) (h : Host σ V) (target : Nat) :
    Evaluation σ V → Evaluation σ V → Prop
  /-- There is nothing to compute. -/
  | idle {e : Evaluation σ V}
      (other : ∀ b w o, e.graph.nodes[target]? ≠ some (.pending ⟨some b, w, o⟩)) :
      Attempted g h target e e
  /-- A copy of itself. -/
  | self {e : Evaluation σ V} {b : Binding} {w : List Nat} {o : Origin} {a : SemanticAction}
      {p : Nat} (here : e.graph.nodes[target]? = some (.pending ⟨some b, w, o⟩))
      (defines : g.Defines b a) (copy : a.isCopy = true) (param : b.params = [p])
      (walk : e.graph.representative p = .ok target) :
      Attempted g h target e e
  /-- A copy of something pending, which takes over the waiters. -/
  | join {e : Evaluation σ V} {b : Binding} {w : List Nat} {o : Origin} {a : SemanticAction}
      {p source : Nat} {state : Pending}
      (here : e.graph.nodes[target]? = some (.pending ⟨some b, w, o⟩))
      (defines : g.Defines b a) (copy : a.isCopy = true) (param : b.params = [p])
      (walk : e.graph.representative p = .ok source) (different : target ≠ source)
      (there : e.graph.nodes[source]? = some (.pending state)) :
      Attempted g h target e { e with
        graph := (e.graph.put target (.link source)).put source
          (.pending { state with waiters := state.waiters ++ w }) }
  /-- A copy of something known, which wakes the waiters. -/
  | link {e : Evaluation σ V} {b : Binding} {w : List Nat} {o : Origin} {a : SemanticAction}
      {p source : Nat} {known : Node V}
      (here : e.graph.nodes[target]? = some (.pending ⟨some b, w, o⟩))
      (defines : g.Defines b a) (copy : a.isCopy = true) (param : b.params = [p])
      (walk : e.graph.representative p = .ok source) (different : target ≠ source)
      (there : e.graph.nodes[source]? = some known) (settled : known.isPending = false) :
      Attempted g h target e { e with
        graph := e.graph.put target (.link source), queue := e.queue ++ w }
  /-- A parameter is pending, and `target` waits for it. -/
  | park {e : Evaluation σ V} {b : Binding} {w : List Nat} {o : Origin} {a : SemanticAction}
      {source : Nat} {state : Pending}
      (here : e.graph.nodes[target]? = some (.pending ⟨some b, w, o⟩))
      (defines : g.Defines b a) (copy : a.isCopy = false)
      (first : e.graph.firstPending? b.params = .ok (some source))
      (there : e.graph.nodes[source]? = some (.pending state)) :
      Attempted g h target e { e with
        graph := if state.waiters.contains target then e.graph
          else e.graph.put source (.pending { state with waiters := state.waiters ++ [target] })
        stats := { e.stats with deferred := e.stats.deferred + 1 } }
  /-- All parameters are known, and `target` gets a value. -/
  | settle {e e₁ : Evaluation σ V} {b : Binding} {w : List Nat} {o : Origin} {a : SemanticAction}
      {node : Node V} (here : e.graph.nodes[target]? = some (.pending ⟨some b, w, o⟩))
      (defines : g.Defines b a) (copy : a.isCopy = false)
      (first : e.graph.firstPending? b.params = .ok none)
      (known : ∀ p ∈ b.params, e.graph.Known p)
      (computed : Computed h a b.params o e node e₁) :
      Attempted g h target e { e₁ with
        graph := e.graph.put target node, queue := e.queue ++ w }

section Cases

variable {b : Binding} {w : List Nat} {o : Origin} {a : SemanticAction}

theorem define_eq {state : Pending} {node : Node V} {graph : Graph V}
    (here : graph.nodes[target]? = some (.pending state)) :
    graph.define target node = .ok (state.waiters, graph.put target node) := by
  simp [Graph.define, Graph.node_eq_ok_iff.2 here, Graph.replace_eq (Graph.lt_size here), pure,
    Except.pure]

theorem yields_copy (sound : g.Sound) (healthy : e.Sound g)
    (here : e.graph.nodes[target]? = some (.pending ⟨some b, w, o⟩)) (defines : g.Defines b a)
    (copy : a.isCopy = true) : Yields (e.copy target b.params) (Attempted g h target e) := by
  have single : b.params.length = 1 := by
    obtain ⟨rule, there, at_index⟩ := Option.bind_eq_some_iff.1 defines.action
    rw [defines.params]
    exact sound.copy rule (Array.mem_of_getElem? there) a (Array.mem_of_getElem? at_index) copy
  obtain ⟨p, param⟩ := List.length_eq_one_iff.1 single
  have inside : p < e.graph.size := (healthy.graph.bound here).2 p (by simp [param])
  obtain ⟨source, walk, _, known, there, plain⟩ :=
    Graph.yields_representative healthy.graph.linked inside
  unfold Evaluation.copy
  rw [param]
  refine .bind_ok walk ?_
  split
  · next same => exact .pure (.self here defines copy param (same ▸ walk))
  · next different =>
    have different : target ≠ source := fun same => different same.symm
    refine .bind_ok (define_eq here) ?_
    have later : (e.graph.put target (.link source)).nodes[source]? = some known := by
      rw [Graph.getElem?_put_ne different, there]
    dsimp only [Graph.handOver]
    rw [Graph.node_eq_ok_iff.2 later]
    cases known with
    | pending state =>
      have inside := Graph.lt_size later
      simp only [ok_bind, Graph.replace_eq inside]
      have joined := Attempted.join (h := h) here defines copy param walk different there
      simpa using Yields.pure joined
    | link next => cases plain
    | _ => exact .pure (.link here defines copy param walk different there rfl)

theorem yields_park (here : e.graph.nodes[target]? = some (.pending ⟨some b, w, o⟩))
    (defines : g.Defines b a) (copy : a.isCopy = false) {source : Nat}
    (first : e.graph.firstPending? b.params = .ok (some source))
    (pending : e.graph.pendingAt source = true) :
    Yields (e.park target source) (Attempted g h target e) := by
  obtain ⟨state, there⟩ := Graph.exists_pending_of_pendingAt pending
  have parked := Attempted.park (h := h) here defines copy first there
  have await : e.graph.await target source = .ok (if state.waiters.contains target then e.graph
      else e.graph.put source (.pending { state with waiters := state.waiters ++ [target] })) := by
    unfold Graph.await
    rw [Graph.node_eq_ok_iff.2 there]
    simp only [ok_bind]
    split
    · rfl
    · exact Graph.replace_eq (Graph.lt_size there)
  exact .bind_ok await (.pure parked)

theorem yields_settle {node : Node V} {e₁ : Evaluation σ V}
    (here : e.graph.nodes[target]? = some (.pending ⟨some b, w, o⟩))
    (defines : g.Defines b a) (copy : a.isCopy = false)
    (first : e.graph.firstPending? b.params = .ok none) (known : ∀ p ∈ b.params, e.graph.Known p)
    (computed : Computed h a b.params o e node e₁) :
    Yields (e₁.settle target node) (Attempted g h target e) := by
  have settled := Attempted.settle here defines copy first known computed
  obtain ⟨graph, queue, _, _⟩ := computed.undisturbed
  rw [← graph] at here settled
  rw [← queue] at settled
  exact .bind_ok (define_eq here) (.pure settled)

theorem yields_compute (here : e.graph.nodes[target]? = some (.pending ⟨some b, w, o⟩))
    (defines : g.Defines b a) (copy : a.isCopy = false)
    (first : e.graph.firstPending? b.params = .ok none) (known : ∀ p ∈ b.params, e.graph.Known p) :
    Yields (e.compute h target a b.params o) (Attempted g h target e) := by
  refine (Graph.yields_anyError known).bind ?_
  rintro error ⟨flags, errors, rfl⟩
  split
  · next soft => exact yields_settle here defines copy first known (.term errors soft)
  · next hard =>
    have hard : a.soft = false := by simpa using hard
    split
    · next blocked => exact yields_settle here defines copy first known (.null errors hard blocked)
    · next free =>
      have free : (flags.contains true || e.locked) = false := by simpa using free
      unfold Evaluation.call
      dsimp only
      split
      · next produced answer =>
        exact yields_settle here defines copy first known (.value errors hard free answer)
      · next reason answer =>
        exact yields_settle here defines copy first known (.refusal errors hard free answer)

end Cases

/-- On a sound state an attempt succeeds, in one of its cases. -/
theorem yields_attempt (sound : g.Sound) (healthy : e.Sound g) (inside : target < e.graph.size) :
    Yields (e.attempt g h target) (Attempted g h target e) := by
  obtain ⟨node, here⟩ := Graph.exists_node inside
  unfold attempt
  refine .bind_ok (Graph.node_eq_ok_iff.2 here) ?_
  split
  · next b w o =>
    obtain ⟨⟨a, defines⟩, params⟩ := healthy.graph.bound here
    obtain ⟨rule, there, at_index⟩ := Option.bind_eq_some_iff.1 defines.action
    refine .bind_ok (fetch_eq_ok_iff.2 there) (.bind_ok (fetch_eq_ok_iff.2 at_index) ?_)
    split
    · next copy => exact yields_copy sound healthy here defines copy
    · next copy =>
      have copy : a.isCopy = false := by simpa using copy
      refine (Graph.yields_firstPending? healthy.graph.linked params).bind fun found facts => ?_
      cases found with
      | some source => exact yields_park here defines copy facts.1 facts.2.1
      | none => exact yields_compute here defines copy facts.1 facts.2
  · next other =>
    refine .pure (.idle fun b w o same => ?_)
    cases here.symm.trans same
    exact other b w o rfl

end Evaluation

end GrammarMachine
