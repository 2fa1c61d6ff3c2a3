import GrammarMachine.Proofs.Evaluation.Accounts

/-!
Rules that are computed at once. If a rule has one action, and all that the action reads is known,
the first attempt settles its attribute; as nobody waits for a new attribute, nothing is left to
attempt then.
-/

namespace GrammarMachine

namespace Graph

variable {V : Type} {graph graph' : Graph V} {id : Nat} {node : Node V}

/-- The node behind `id`, which is known. -/
def Resolves (graph : Graph V) (id : Nat) (node : Node V) : Prop :=
  ∃ rep, graph.representative id = .ok rep ∧ graph.nodes[rep]? = some node ∧
    node.isPending = false

theorem Resolves.known (resolves : graph.Resolves id node) : graph.Known id := by
  obtain ⟨rep, walk, found, settled⟩ := resolves
  exact ⟨rep, node, walk, found, settled⟩

theorem Resolves.lt_size (resolves : graph.Resolves id node) : id < graph.size := by
  obtain ⟨_, walk, _⟩ := resolves
  exact lt_size_of_representative walk

theorem Resolves.grows (resolves : graph.Resolves id node) (grows : graph.Grows graph')
    (linked : graph'.Linked) : graph'.Resolves id node := by
  obtain ⟨rep, walk, found, settled⟩ := resolves
  obtain ⟨walk', found'⟩ := grows.resolve linked walk found settled
  exact ⟨rep, walk', found', settled⟩

theorem Resolves.plain (resolves : graph.Resolves id node) : node.isLink = false := by
  obtain ⟨rep, walk, found, _⟩ := resolves
  obtain ⟨_, same, plain⟩ := plain_of_follow walk
  cases found.symm.trans same
  exact plain

theorem Resolves.resolve (resolves : graph.Resolves id node) : graph.resolve id = .ok node := by
  obtain ⟨rep, walk, found, _⟩ := resolves
  rw [Graph.resolve, walk]
  exact node_eq_ok_iff.2 found

theorem resolves_of_plain (here : graph.nodes[id]? = some node) (settled : node.isPending = false)
    (plain : node.isLink = false) : graph.Resolves id node :=
  ⟨id, representative_of_not_link here plain, here, settled⟩

/-- What a link leads to is behind it, too. -/
theorem Resolves.of_link {target : Nat} (resolves : graph.Resolves target node)
    (linked : graph.Linked) (link : graph.nodes[id]? = some (.link target)) :
    graph.Resolves id node := by
  obtain ⟨rep, walk, found, settled⟩ := resolves
  exact ⟨rep, representative_of_link linked link walk, found, settled⟩

theorem known_of_resolves {ps : List Nat} {nodes : List (Node V)}
    (resolves : List.Forall₂ graph.Resolves ps nodes) : ∀ p ∈ ps, graph.Known p := by
  induction resolves with
  | nil => nofun
  | cons first _ ih => exact List.forall_mem_cons.2 ⟨first.known, ih⟩

theorem firstPending?_eq_none {ps : List Nat} (known : ∀ p ∈ ps, graph.Known p) :
    graph.firstPending? ps = .ok none := by
  induction ps with
  | nil => rfl
  | cons p rest ih =>
    obtain ⟨first, others⟩ := List.forall_mem_cons.1 known
    rw [firstPending?_of_known first]
    exact ih others

theorem mapM_isError {ps : List Nat} {nodes : List (Node V)}
    (resolves : List.Forall₂ graph.Resolves ps nodes) :
    ps.mapM graph.isError = .ok (nodes.map Node.isError) := by
  induction resolves with
  | nil => rfl
  | cons first _ ih =>
    rw [List.mapM_cons, isError, first.resolve, ih]
    rfl

end Graph

theorem Call.param?_of_resolves {V : Type} {call : Call V} {nodes : List (Node V)}
    (resolves : List.Forall₂ call.graph.Resolves call.params nodes) (i : Nat) :
    call.param? i = nodes[i]? := by
  unfold param?
  generalize call.params = ps at resolves
  induction resolves generalizing i with
  | nil => rfl
  | cons first _ ih =>
    cases i with
    | zero =>
      rw [List.getElem?_cons_zero, List.getElem?_cons_zero, Option.bind_eq_bind, Option.bind_some,
        first.resolve]
      rfl
    | succ i => exact ih i

namespace Evaluation

variable {σ V : Type} {g : Grammar} {h : Host σ V} {e e' : Evaluation σ V} {a : SemanticAction}
  {target : Nat} {o : Origin} {ps : List Nat}

/-- With all parameters known, an attempt makes a link or computes a node. -/
theorem Attempted.of_known (attempted : Attempted g h target e e') {b : Binding} {w : List Nat}
    (here : e.graph.nodes[target]? = some (.pending ⟨some b, w, o⟩)) (action : g.action? b = some a)
    (known : ∀ p ∈ b.params, e.graph.Known p) :
    (a.isCopy = true ∧ ∃ p source, b.params = [p] ∧ e.graph.representative p = .ok source ∧
        e' = { e with graph := e.graph.put target (.link source), queue := e.queue ++ w }) ∨
      (a.isCopy = false ∧ ∃ node e₁, Computed h a b.params o e node e₁ ∧
        e' = { e₁ with graph := e.graph.put target node, queue := e.queue ++ w }) := by
  -- What stands behind a known parameter is not pending.
  have settled : ∀ {p source : Nat} {state : Pending}, b.params = [p] →
      e.graph.representative p = .ok source →
      e.graph.nodes[source]? ≠ some (.pending state) := by
    intro p source state param walk there
    obtain ⟨rep, node, walk', found, settled⟩ := known p (by simp [param])
    cases walk.symm.trans walk'
    cases there.symm.trans found
    cases settled
  cases attempted with
  | idle other => exact absurd here (other b w o)
  | self here' _ _ param walk =>
    cases here.symm.trans here'
    exact absurd here (settled param walk)
  | join here' _ _ param walk _ there =>
    cases here.symm.trans here'
    exact absurd there (settled param walk)
  | link here' defines copy param walk =>
    cases here.symm.trans here'
    cases action.symm.trans defines.action
    exact .inl ⟨copy, _, _, param, walk, rfl⟩
  | park here' _ _ first =>
    cases here.symm.trans here'
    cases first.symm.trans (Graph.firstPending?_eq_none known)
  | settle here' defines copy _ _ computed =>
    cases here.symm.trans here'
    cases action.symm.trans defines.action
    exact .inr ⟨copy, _, _, computed, rfl⟩

/-- Slots that all name an attribute take nothing from the graph. -/
theorem slots_eq {lhs : List Nat} {rhs : List (List Nat)} {ss : List Slot}
    (named : List.Forall₂ (fun s p => s.find? lhs rhs = some p) ss ps) (e : Evaluation σ V) :
    e.slots lhs rhs ss = (ps, e) := by
  induction named with
  | nil => rfl
  | cons first _ ih =>
    rw [slots, slot_eq, first, Option.elim_some]
    dsimp only
    rw [ih]

theorem Quiet.of_stats {e : Evaluation σ V} {graph : Graph V} {queue : List Nat} :
    e.Quiet ⟨graph, queue, e.control, e.host, e.stats⟩ :=
  ⟨rfl, rfl, _, _, _, rfl⟩

/-- The state in which the action has been bound: nothing else has happened. -/
structure Binds (g : Grammar) (e e₁ : Evaluation σ V) : Prop where
  sound : e₁.Sound g
  grows : e.graph.Grows e₁.graph
  quiet : e.Quiet e₁

/-- Performing an action whose slots are all named, for an attribute without a definition: it is
counted and bound, and then attempted. -/
theorem perform_eq {id : UInt32} {index : Nat} {lhs : List Nat} {rhs : List (List Nat)}
    {w : List Nat} (named : a.target.find? lhs rhs = some target)
    (params : List.Forall₂ (fun s p => s.find? lhs rhs = some p) a.params ps)
    (fresh : e.graph.nodes[target]? = some (.pending ⟨none, w, o⟩)) :
    e.perform g h id lhs rhs index a =
      attempt g h target (defined target ⟨id, index, ps⟩ w o
        { e with stats := { e.stats with actions := e.stats.actions + 1 } }) := by
  rw [perform, slot_eq, named, Option.elim_some]
  dsimp only
  rw [slots_eq params]
  dsimp only
  rw [Graph.bind_unbound fresh, ok_bind]
  rfl

/-- An action for an attribute without a definition is bound to it, and attempted. -/
theorem yields_perform_fresh (sound : g.Sound) (healthy : e.Sound g) (a : SemanticAction)
    (id : UInt32) (index : Nat) (lhs : List Nat) (rhs : List (List Nat)) {w : List Nat}
    (named : a.target.find? lhs rhs = some target)
    (params : List.Forall₂ (fun s p => s.find? lhs rhs = some p) a.params ps)
    (fresh : e.graph.nodes[target]? = some (.pending ⟨none, w, o⟩))
    (inside : ∀ p ∈ ps, p < e.graph.size) (action : g.action? ⟨id, index, ps⟩ = some a) :
    let e₁ := defined target ⟨id, index, ps⟩ w o
      { e with stats := { e.stats with actions := e.stats.actions + 1 } }
    Binds g e e₁ ∧ e₁.graph.nodes[target]? = some (.pending ⟨some ⟨id, index, ps⟩, w, o⟩) ∧
      Yields (e.perform g h id lhs rhs index a) (Attempted g h target e₁) := by
  intro e₁
  have defines : g.Defines ⟨id, index, ps⟩ a := ⟨action, params.length_eq.symm⟩
  let e₀ : Evaluation σ V := { e with stats := { e.stats with actions := e.stats.actions + 1 } }
  have healthy₀ : e₀.Sound g := (⟨rfl, rfl, rfl, rfl⟩ : e.Undisturbed e₀).sound healthy
  have healthy₁ : e₁.Sound g := healthy₀.defined fresh defines inside
  have target_inside : target < e₁.graph.size := by
    rw [show e₁.graph.size = e.graph.size from Graph.size_put ..]
    exact Graph.lt_size fresh
  rw [perform_eq named params fresh]
  exact ⟨⟨healthy₁, grows_defined (e := e₀) fresh, rfl, rfl, _, _, _, rfl⟩,
    Graph.getElem?_put_self (Graph.lt_size fresh), yields_attempt sound healthy₁ target_inside⟩

section Rules

variable {id : UInt32} {index : Nat} {lhs : List Nat} {rhs : List (List Nat)}

theorem performAll_cons {e₁ e₂ : Evaluation σ V} {as : List SemanticAction}
    (first : e.perform g h id lhs rhs index a = .ok e₁)
    (rest : performAll g h id lhs rhs (index + 1) as e₁ = .ok e₂) :
    performAll g h id lhs rhs index (a :: as) e = .ok e₂ := by
  rw [performAll, first, ok_bind, rest]

/-- When the actions of a rule have been performed, it is left to attempt what they woke up. -/
theorem runRule_eq {r : Rule} (rule : g.rules[id.toNat]? = some r)
    (performed : performAll g h id lhs rhs 0 r.actions.toList e = .ok e') :
    runRule g h id lhs rhs e = drain g h e' := by
  rw [runRule, Grammar.rule, fetch_eq_ok_iff.2 rule, ok_bind]
  dsimp only
  rw [performed]
  rfl

end Rules

/-- The rule `id` has the one action `a`, which computes `target` from attributes that are known. -/
structure Direct (g : Grammar) (e : Evaluation σ V) (id : UInt32) (a : SemanticAction)
    (lhs : List Nat) (rhs : List (List Nat)) (ps : List Nat) (target : Nat) (o : Origin) :
    Prop where
  rule : ∃ r, g.rules[id.toNat]? = some r ∧ r.actions = #[a]
  named : a.target.find? lhs rhs = some target
  params : List.Forall₂ (fun s p => s.find? lhs rhs = some p) a.params ps
  fresh : e.graph.nodes[target]? = some (.pending ⟨none, [], o⟩)
  known : ∀ p ∈ ps, e.graph.Known p

/-- Such a rule is run by a single attempt, from the state in which its action has been bound. -/
theorem Direct.attempted {id : UInt32} {lhs : List Nat} {rhs : List (List Nat)}
    (direct : Direct g e id a lhs rhs ps target o) (sound : g.Sound) (healthy : e.Sound g)
    (empty : e.queue = []) (ran : runRule g h id lhs rhs e = .ok e') :
    let e₁ := defined target ⟨id, 0, ps⟩ [] o
      { e with stats := { e.stats with actions := e.stats.actions + 1 } }
    Binds g e e₁ ∧ g.action? ⟨id, 0, ps⟩ = some a ∧ (∀ p ∈ ps, e₁.graph.Known p) ∧
      e₁.graph.nodes[target]? = some (.pending ⟨some ⟨id, 0, ps⟩, [], o⟩) ∧
      Attempted g h target e₁ e' := by
  obtain ⟨⟨r, rule, single⟩, named, params, fresh, known⟩ := direct
  intro e₁
  have action : g.action? ⟨id, 0, ps⟩ = some a := by
    simp [Grammar.action?, rule, single]
  have inside : ∀ p ∈ ps, p < e.graph.size := by
    intro p mem
    obtain ⟨rep, _, walk, _⟩ := known p mem
    exact Graph.lt_size_of_representative walk
  obtain ⟨binds, here, e₂, result, attempted⟩ :=
    yields_perform_fresh (h := h) sound healthy a id 0 lhs rhs named params fresh inside action
  have known₁ : ∀ p ∈ ps, e₁.graph.Known p := fun p mem =>
    (known p mem).grows binds.grows binds.sound.graph.linked
  -- Nobody waits for a new attribute, so the attempt leaves nothing in the queue.
  have whole : runRule g h id lhs rhs e = drain g h e₂ :=
    runRule_eq rule (single ▸ performAll_cons result rfl)
  have none : e₂.queue = [] := by
    rcases attempted.of_known here action known₁ with ⟨_, _, _, _, _, rfl⟩ | ⟨_, _, _, _, rfl⟩ <;>
      simp [defined, empty]
  rw [whole, drain, none] at ran
  cases ran
  exact ⟨binds, action, known₁, here, attempted⟩

/-- A copy stands for what is copied, and nobody notices. -/
theorem Direct.copied {id : UInt32} {lhs : List Nat} {rhs : List (List Nat)} {p : Nat}
    {node : Node V} (direct : Direct g e id a lhs rhs [p] target o) (sound : g.Sound)
    (healthy : e.Sound g) (empty : e.queue = []) (ran : runRule g h id lhs rhs e = .ok e')
    (copy : a.isCopy = true) (resolves : e.graph.Resolves p node) :
    e'.graph.Resolves target node ∧ e.Quiet e' := by
  obtain ⟨binds, action, known, here, attempted⟩ := direct.attempted sound healthy empty ran
  obtain ⟨rep, walk, found, settled⟩ := resolves.grows binds.grows binds.sound.graph.linked
  rcases attempted.of_known here action known with
    ⟨_, _, source, param, walk', rfl⟩ | ⟨other, _⟩
  · cases param
    cases walk.symm.trans walk'
    have grows := attempted.grows
    have there := grows.kept found settled
    have link := @Graph.getElem?_put_self _ _ _ (.link rep) (Graph.lt_size here)
    exact ⟨⟨rep, Graph.representative_of_link (attempted.sound binds.sound).graph.linked link
      (Graph.representative_of_not_link there resolves.plain), there, settled⟩, rfl, rfl, _, _, _,
      rfl⟩
  · cases copy.symm.trans other

/-- Anything else stands for what is computed of the nodes behind the parameters. -/
theorem Direct.applied {id : UInt32} {lhs : List Nat} {rhs : List (List Nat)}
    {nodes : List (Node V)} (direct : Direct g e id a lhs rhs ps target o) (sound : g.Sound)
    (healthy : e.Sound g) (empty : e.queue = []) (ran : runRule g h id lhs rhs e = .ok e')
    (other : a.isCopy = false) (resolves : List.Forall₂ e.graph.Resolves ps nodes) :
    ∃ e₁ node e₂, e.Quiet e₁ ∧ List.Forall₂ e₁.graph.Resolves ps nodes ∧
      Computed h a ps o e₁ node e₂ ∧ e₂.Quiet e' ∧ e'.graph.Resolves target node := by
  obtain ⟨binds, action, known, here, attempted⟩ := direct.attempted sound healthy empty ran
  have later := resolves.imp fun _ _ found => found.grows binds.grows binds.sound.graph.linked
  rcases attempted.of_known here action known with ⟨copy, _⟩ | ⟨_, node, e₂, computed, rfl⟩
  · cases copy.symm.trans other
  · have there := @Graph.getElem?_put_self _ _ _ node (Graph.lt_size here)
    obtain ⟨settled, plain, _⟩ := computed.plain
    exact ⟨_, node, e₂, binds.quiet, later, computed, .of_stats,
      Graph.resolves_of_plain there settled plain⟩

/-- Nothing has had to wait: no action was deferred, and none attempted again. -/
structure Prompt (e : Evaluation σ V) : Prop where
  deferred : e.stats.deferred = 0
  replays : e.stats.replays = 0

theorem Undisturbed.prompt (same : e.Undisturbed e') (prompt : e.Prompt) : e'.Prompt :=
  ⟨same.deferred.trans prompt.deferred, same.replays.trans prompt.replays⟩

theorem Direct.prompt {id : UInt32} {lhs : List Nat} {rhs : List (List Nat)}
    (direct : Direct g e id a lhs rhs ps target o) (sound : g.Sound) (healthy : e.Sound g)
    (empty : e.queue = []) (ran : runRule g h id lhs rhs e = .ok e') (prompt : e.Prompt) :
    e'.Prompt := by
  obtain ⟨_, action, known, here, attempted⟩ := direct.attempted sound healthy empty ran
  rcases attempted.of_known here action known with ⟨_, _, _, _, _, rfl⟩ | ⟨_, _, e₂, computed, rfl⟩
  · exact ⟨prompt.deferred, prompt.replays⟩
  · have same := computed.undisturbed
    exact ⟨same.deferred.trans prompt.deferred, same.replays.trans prompt.replays⟩

end Evaluation

end GrammarMachine
