import GrammarMachine.Proofs.Graph.Links

/-!
Who waits for what. All waiters of a graph stand in one list, which a change to one node permutes or
shortens; the attribute that a list of parameters waits for is the representative of the first one
that is pending, and stays so while the ones in front of it are known.
-/

namespace GrammarMachine

def Node.waiters {V : Type} : Node V → List Nat
  | .pending state => state.waiters
  | _ => []

namespace Graph

variable {V : Type} {g g' : Graph V} {id rep : Nat} {node old : Node V}

/-- The waiters of all nodes. -/
def parked (g : Graph V) : List Nat := g.nodes.toList.flatMap Node.waiters

theorem mem_parked {n : Nat} :
    n ∈ g.parked ↔
      ∃ (m : Nat) (state : Pending), g.nodes[m]? = some (.pending state) ∧ n ∈ state.waiters := by
  unfold parked
  constructor
  · intro mem
    obtain ⟨node, inside, waits⟩ := List.mem_flatMap.1 mem
    obtain ⟨m, found⟩ := Array.mem_iff_getElem?.1 (Array.mem_toList_iff.1 inside)
    cases node with
    | pending state => exact ⟨m, state, found, waits⟩
    | _ => cases waits
  · rintro ⟨m, state, found, waits⟩
    exact List.mem_flatMap.2 ⟨_, Array.mem_toList_iff.2 (Array.mem_of_getElem? found), waits⟩

theorem waiterCount_eq (g : Graph V) : g.waiterCount = g.parked.length := by
  have node_count : ∀ node : Node V, node.waiterCount = node.waiters.length := by
    intro node
    cases node <;> rfl
  unfold waiterCount parked
  induction g.nodes.toList with
  | nil => rfl
  | cons node rest ih =>
    rw [List.foldr_cons, ih, node_count, List.flatMap_cons, List.length_append]

theorem flatMap_set_perm {α β : Type} {f : α → List β} {xs : List α} {i : Nat} {x y : α}
    (here : xs[i]? = some x) : ((xs.set i y).flatMap f ++ f x).Perm (xs.flatMap f ++ f y) := by
  induction xs generalizing i with
  | nil => cases here
  | cons first rest ih =>
    cases i with
    | zero =>
      cases here
      simp only [List.set_cons_zero, List.flatMap_cons]
      have swap : (f y ++ (rest.flatMap f ++ f x)).Perm ((f x ++ rest.flatMap f) ++ f y) :=
        List.perm_append_comm.trans (List.perm_append_comm.append_right _)
      rwa [← List.append_assoc] at swap
    | succ i =>
      simp only [List.set_cons_succ, List.flatMap_cons, List.append_assoc]
      exact (ih here).append_left _

/-- Waiters change as those of the node that is replaced. -/
theorem parked_put (here : g.nodes[id]? = some old) (node : Node V) :
    ((g.put id node).parked ++ old.waiters).Perm (g.parked ++ node.waiters) := by
  unfold parked put
  rw [Array.toList_setIfInBounds]
  exact flatMap_set_perm (by rwa [Array.getElem?_toList])

/-- A node without waiters sets those of the old one free. -/
theorem parked_put_nil (here : g.nodes[id]? = some old) (none : node.waiters = [])
    (queue : List Nat) :
    (queue ++ old.waiters ++ (g.put id node).parked).Perm (queue ++ g.parked) := by
  have perm := parked_put here node
  rw [none, List.append_nil] at perm
  rw [List.append_assoc]
  exact (List.perm_append_comm.trans perm).append_left queue

theorem parked_put_append {state : Pending} (here : g.nodes[id]? = some (.pending state))
    (ws : List Nat) :
    (g.put id (.pending { state with waiters := state.waiters ++ ws })).parked.Perm
      (g.parked ++ ws) := by
  have perm := parked_put here (.pending { state with waiters := state.waiters ++ ws })
  have swap : (g.parked ++ (state.waiters ++ ws)).Perm ((g.parked ++ ws) ++ state.waiters) := by
    rw [List.append_assoc]
    exact List.perm_append_comm.append_left _
  exact (List.perm_append_right_iff _).1 (perm.trans swap)

/-- A link to a pending attribute that takes over the waiters. -/
theorem parked_put_link {state joined : Pending} {source : Nat}
    (here : g.nodes[id]? = some (.pending state)) (different : id ≠ source)
    (there : g.nodes[source]? = some (.pending joined)) :
    ((g.put id (.link source)).put source
      (.pending { joined with waiters := joined.waiters ++ state.waiters })).parked.Perm
      g.parked := by
  rw [← getElem?_put_ne different] at there
  have freed : (state.waiters ++ (g.put id (.link source)).parked).Perm g.parked :=
    parked_put_nil here rfl []
  exact (parked_put_append there state.waiters).trans (List.perm_append_comm.trans freed)

theorem parked_alloc (fresh : node.waiters = []) : (g.alloc node).2.parked = g.parked := by
  unfold parked alloc
  simp [fresh]

theorem pendingCount_put (here : g.nodes[id]? = some old) (pending : old.isPending = true)
    (node : Node V) :
    (g.put id node).pendingCount + 1 = g.pendingCount + if node.isPending then 1 else 0 := by
  obtain ⟨inside, at_id⟩ := Array.getElem?_eq_some_iff.1 here
  have some_pending : 0 < g.nodes.countP Node.isPending :=
    Array.countP_pos_iff.2 ⟨old, Array.mem_of_getElem? here, pending⟩
  unfold pendingCount put
  rw [Array.countP_toList, Array.countP_toList, Array.setIfInBounds_def, dif_pos inside,
    Array.countP_set inside, at_id, pending]
  simp only [if_true]
  omega

/-- The node stands for something known. -/
def Known (g : Graph V) (id : Nat) : Prop :=
  ∃ rep node, g.representative id = .ok rep ∧ g.nodes[rep]? = some node ∧ node.isPending = false

theorem Known.grows (known : g.Known id) (grows : g.Grows g') (linked : g'.Linked) :
    g'.Known id := by
  obtain ⟨rep, node, walk, found, settled⟩ := known
  obtain ⟨walk', found'⟩ := grows.resolve linked walk found settled
  exact ⟨rep, node, walk', found', settled⟩

theorem firstPending?_of_known (known : g.Known id) (rest : List Nat) :
    g.firstPending? (id :: rest) = g.firstPending? rest := by
  obtain ⟨rep, node, walk, found, settled⟩ := known
  simp [firstPending?, walk, node_eq_ok_iff.2 found, settled]

theorem firstPending?_of_pending (walk : g.representative id = .ok rep)
    (pending : g.pendingAt rep = true) (rest : List Nat) :
    g.firstPending? (id :: rest) = .ok (some rep) := by
  obtain ⟨state, found⟩ := exists_pending_of_pendingAt pending
  simp [firstPending?, walk, node_eq_ok_iff.2 found, Node.isPending, pure, Except.pure]

/-- A parameter is known, or its representative is pending. -/
theorem known_or_pending (linked : g.Linked) (inside : id < g.size) :
    g.Known id ∨ ∃ rep, g.representative id = .ok rep ∧ g.pendingAt rep = true := by
  obtain ⟨rep, walk, _, node, found, _⟩ := yields_representative linked inside
  cases pending : node.isPending with
  | false => exact .inl ⟨rep, node, walk, found, pending⟩
  | true => exact .inr ⟨rep, walk, (pendingAt_eq found).trans pending⟩

/-- What is found is pending and stands behind a parameter; if nothing is found, all are known. -/
theorem yields_firstPending? (linked : g.Linked) {ps : List Nat} (inside : ∀ p ∈ ps, p < g.size) :
    Yields (g.firstPending? ps) fun found => g.firstPending? ps = .ok found ∧
      match found with
      | some m => g.pendingAt m = true ∧ ∃ p ∈ ps, g.representative p = .ok m
      | none => ∀ p ∈ ps, g.Known p := by
  induction ps with
  | nil => exact .ok ⟨rfl, by simp⟩
  | cons p rest ih =>
    obtain ⟨first, others⟩ := List.forall_mem_cons.1 inside
    rcases known_or_pending linked first with known | ⟨rep, walk, pending⟩
    · have skip := firstPending?_of_known known rest
      rw [skip]
      refine (ih others).mono fun found ⟨eq, facts⟩ => ⟨eq, ?_⟩
      cases found with
      | none => exact List.forall_mem_cons.2 ⟨known, facts⟩
      | some m =>
        obtain ⟨pending, q, mem, walk⟩ := facts
        exact ⟨pending, q, List.mem_cons_of_mem _ mem, walk⟩
    · have here := firstPending?_of_pending walk pending rest
      exact .of_eq here ⟨here, pending, p, List.mem_cons_self, walk⟩

/-- What is waited for moves on with the representative, while the rest of the graph grows. -/
theorem firstPending?_grows {m m' : Nat} (grows : g.Grows g') (linked : g.Linked)
    (linked' : g'.Linked) (moves : g'.representative m = .ok m')
    (pending : g'.pendingAt m' = true) {ps : List Nat} (inside : ∀ p ∈ ps, p < g.size)
    (found : g.firstPending? ps = .ok (some m)) : g'.firstPending? ps = .ok (some m') := by
  induction ps with
  | nil => cases found
  | cons p rest ih =>
    obtain ⟨first, others⟩ := List.forall_mem_cons.1 inside
    rcases known_or_pending linked first with known | ⟨rep, walk, here⟩
    · rw [firstPending?_of_known known] at found
      rw [firstPending?_of_known (known.grows grows linked')]
      exact ih others found
    · rw [firstPending?_of_pending walk here] at found
      cases found
      have walk' := representative_through grows linked' walk moves
        (Nat.lt_of_lt_of_le first grows.size)
      exact firstPending?_of_pending walk' pending rest

theorem isError_of_known {node : Node V} (walk : g.representative id = .ok rep)
    (found : g.nodes[rep]? = some node) : g.isError id = .ok node.isError := by
  simp [isError, resolve, walk, node_eq_ok_iff.2 found, pure, Except.pure]

theorem Known.isError_grows (known : g.Known id) (grows : g.Grows g') (linked : g'.Linked) :
    g'.isError id = g.isError id := by
  obtain ⟨rep, node, walk, found, settled⟩ := known
  obtain ⟨walk', found'⟩ := grows.resolve linked walk found settled
  rw [isError_of_known walk found, isError_of_known walk' found']

/-- One error among the parameters is an error of them all. -/
theorem yields_anyError {ps : List Nat} (known : ∀ p ∈ ps, g.Known p) :
    Yields (g.anyError ps) fun error =>
      ∃ flags, ps.mapM g.isError = .ok flags ∧ error = flags.contains true := by
  induction ps with
  | nil => exact .ok ⟨[], rfl, rfl⟩
  | cons p rest ih =>
    obtain ⟨⟨rep, node, walk, found, _⟩, others⟩ := List.forall_mem_cons.1 known
    have here := isError_of_known walk found
    obtain ⟨error, eq, flags, all, rfl⟩ := ih others
    have flags_eq : (p :: rest).mapM g.isError = .ok (node.isError :: flags) := by
      simp [List.mapM_cons, here, all, pure, Except.pure]
    refine .bind_ok here ?_
    split
    · next bad => exact .pure ⟨_, flags_eq, by simp [bad]⟩
    · next fine => exact .of_eq eq ⟨_, flags_eq, by simp [fine]⟩

end Graph

end GrammarMachine
