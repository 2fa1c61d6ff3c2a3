import GrammarMachine.Graph.Waiting
import GrammarMachine.Proofs.Success

/-!
Alias links and growth. A graph only grows: new nodes join at the end, and a pending attribute keeps
its origin and its definition until another node takes its place, which then stays for good. Links
lead to a node that is none as long as each new one points to such a node, and then as many hops as
there are links are enough to get there.
-/

namespace GrammarMachine

namespace Node

variable {V : Type}

def isLink : Node V → Bool
  | link _ => true
  | _ => false

theorem eq_pending_of_isPending {node : Node V} (pending : node.isPending = true) :
    ∃ state, node = .pending state := by
  cases node with
  | pending state => exact ⟨state, rfl⟩
  | _ => cases pending

end Node

namespace Graph

variable {V : Type} {g g' g'' : Graph V} {id rep : Nat} {node : Node V}

theorem node_eq_ok_iff : g.node id = .ok node ↔ g.nodes[id]? = some node :=
  fetch_eq_ok_iff

theorem lt_size (found : g.nodes[id]? = some node) : id < g.size :=
  (Array.getElem?_eq_some_iff.1 found).1

theorem exists_node (inside : id < g.size) : ∃ node, g.nodes[id]? = some node :=
  ⟨_, Array.getElem?_eq_getElem inside⟩

/-- Is there a pending attribute under this number? -/
def pendingAt (g : Graph V) (id : Nat) : Bool :=
  match g.nodes[id]? with
  | some node => node.isPending
  | none => false

theorem pendingAt_eq (found : g.nodes[id]? = some node) : g.pendingAt id = node.isPending := by
  unfold pendingAt
  rw [found]

theorem pendingAt_of_size_le (beyond : g.size ≤ id) : g.pendingAt id = false := by
  unfold pendingAt
  rw [Array.getElem?_eq_none beyond]

theorem exists_pending_of_pendingAt (pending : g.pendingAt id = true) :
    ∃ state, g.nodes[id]? = some (.pending state) := by
  unfold pendingAt at pending
  split at pending
  · next node found =>
    obtain ⟨state, rfl⟩ := Node.eq_pending_of_isPending pending
    exact ⟨state, found⟩
  · cases pending

/-- The graph with a node in the place of another. -/
def put (g : Graph V) (id : Nat) (node : Node V) : Graph V :=
  ⟨g.nodes.setIfInBounds id node⟩

theorem replace_eq (inside : id < g.size) : g.replace id node = .ok (g.put id node) := by
  unfold replace
  rw [if_pos inside]
  rfl

@[simp] theorem size_put (g : Graph V) (id : Nat) (node : Node V) :
    (g.put id node).size = g.size := by
  simp [put, size]

theorem getElem?_put_self (inside : id < g.size) : (g.put id node).nodes[id]? = some node :=
  Array.getElem?_setIfInBounds_self_of_lt inside

theorem getElem?_put_ne {other : Nat} (different : id ≠ other) :
    (g.put id node).nodes[other]? = g.nodes[other]? :=
  Array.getElem?_setIfInBounds_ne different

theorem getElem?_alloc (g : Graph V) (node : Node V) (other : Nat) :
    (g.alloc node).2.nodes[other]? = if other = g.size then some node else g.nodes[other]? :=
  Array.getElem?_push

/-- Nodes that are added together stand behind all others, in a row. -/
theorem allocMany_eq (g : Graph V) (node : Node V) (n : Nat) :
    g.allocMany node n = (List.range' g.size n, ⟨g.nodes ++ Array.replicate n node⟩) := by
  induction n generalizing g with
  | zero => simp [allocMany]
  | succ n ih =>
    have later := ih (g.alloc node).2
    rw [size_alloc] at later
    rw [allocMany]
    dsimp only
    rw [later, List.range'_succ]
    have joined : (g.alloc node).2.nodes ++ Array.replicate n node =
        g.nodes ++ Array.replicate (n + 1) node := by
      simp [alloc, Array.replicate_succ']
    rw [joined]
    rfl

theorem getElem?_allocMany_new {n : Nat} (mem : id ∈ (g.allocMany node n).1) :
    (g.allocMany node n).2.nodes[id]? = some node := by
  rw [allocMany_eq] at mem ⊢
  obtain ⟨le, lt⟩ := List.mem_range'_1.1 mem
  dsimp only
  rw [Array.getElem?_append_right le, Array.getElem?_replicate, if_pos]
  exact Nat.sub_lt_left_of_lt_add le lt

theorem getElem?_allocMany_old (inside : id < g.size) (node : Node V) (n : Nat) :
    (g.allocMany node n).2.nodes[id]? = g.nodes[id]? := by
  rw [allocMany_eq]
  exact Array.getElem?_append_left inside

/-- Their numbers differ from those that were there. -/
theorem nodup_range'_append {size : Nat} {ids : List Nat} (distinct : ids.Nodup)
    (inside : ∀ id ∈ ids, id < size) (n : Nat) : (List.range' size n ++ ids).Nodup := by
  refine List.nodup_append.2 ⟨List.nodup_range', distinct, fun new mem old there => ?_⟩
  exact Nat.ne_of_gt (Nat.lt_of_lt_of_le (inside old there) (List.mem_range'_1.1 mem).1)

section Pending

variable {target n : Nat} {binding : Option Binding} {o : Origin} {state : Pending}

/-- A pending attribute with this definition, declared there. -/
def PendingAs (g : Graph V) (n : Nat) (binding : Option Binding) (o : Origin) : Prop :=
  ∃ w, g.nodes[n]? = some (.pending ⟨binding, w, o⟩)

theorem PendingAs.pendingAt (pending : g.PendingAs n binding o) : g.pendingAt n = true := by
  obtain ⟨w, here⟩ := pending
  exact pendingAt_eq here

/-- What is not pending later was not pending, if what was pending stays so. -/
theorem pendingAt_eq_false_of_pendingAs (settled : g'.pendingAt n = false)
    (stays : ∀ {binding o}, g.PendingAs n binding o → g'.PendingAs n binding o) :
    g.pendingAt n = false := by
  cases pending : g.pendingAt n with
  | false => rfl
  | true =>
    obtain ⟨⟨binding, w, o⟩, here⟩ := exists_pending_of_pendingAt pending
    rw [(stays ⟨w, here⟩).pendingAt] at settled
    cases settled

theorem PendingAs.unique {binding' : Option Binding} {o' : Origin} (first : g.PendingAs n binding o)
    (second : g.PendingAs n binding' o') : binding = binding' ∧ o = o' := by
  obtain ⟨w, here⟩ := first
  obtain ⟨w', there⟩ := second
  cases here.symm.trans there
  exact ⟨rfl, rfl⟩

theorem pendingAs_put_settled (inside : target < g.size) (settled : node.isPending = false) :
    (g.put target node).PendingAs n binding o ↔ g.PendingAs n binding o ∧ target ≠ n := by
  unfold PendingAs
  by_cases same : target = n
  · subst same
    rw [getElem?_put_self inside]
    constructor
    · rintro ⟨w, found⟩
      cases found
      cases settled
    · rintro ⟨_, different⟩
      exact absurd rfl different
  · rw [getElem?_put_ne same]
    exact ⟨fun found => ⟨found, same⟩, fun found => found.1⟩

theorem pendingAs_put_waiters {ws : List Nat} (here : g.nodes[target]? = some (.pending state)) :
    (g.put target (.pending { state with waiters := ws })).PendingAs n binding o ↔
      g.PendingAs n binding o := by
  unfold PendingAs
  by_cases same : target = n
  · subst same
    rw [getElem?_put_self (lt_size here), here]
    obtain ⟨binding, w, o⟩ := state
    constructor
    · rintro ⟨w', found⟩
      cases found
      exact ⟨w, rfl⟩
    · rintro ⟨w', found⟩
      cases found
      exact ⟨ws, rfl⟩
  · rw [getElem?_put_ne same]

theorem pendingAs_put_binding {w : List Nat} {o' : Origin} {b : Binding}
    (here : g.nodes[target]? = some (.pending ⟨none, w, o'⟩)) :
    (g.put target (.pending ⟨some b, w, o'⟩)).PendingAs n binding o ↔
      g.PendingAs n binding o ∧ target ≠ n ∨ target = n ∧ binding = some b ∧ o = o' := by
  unfold PendingAs
  by_cases same : target = n
  · subst same
    rw [getElem?_put_self (lt_size here)]
    constructor
    · rintro ⟨w', found⟩
      cases found
      exact .inr ⟨rfl, rfl, rfl⟩
    · rintro (⟨_, different⟩ | ⟨_, rfl, rfl⟩)
      · exact absurd rfl different
      · exact ⟨w, rfl⟩
  · rw [getElem?_put_ne same]
    exact ⟨fun found => .inl ⟨found, same⟩, fun either =>
      (either.resolve_right fun other => same other.1).1⟩

theorem pendingAs_alloc :
    (g.alloc node).2.PendingAs n binding o ↔
      g.PendingAs n binding o ∨ n = g.size ∧ ∃ w, node = .pending ⟨binding, w, o⟩ := by
  unfold PendingAs
  rw [getElem?_alloc]
  split
  · next last =>
    constructor
    · rintro ⟨w, found⟩
      exact .inr ⟨last, w, Option.some.inj found⟩
    · rintro (⟨w, found⟩ | ⟨_, w, rfl⟩)
      · exact absurd (lt_size found) (last ▸ Nat.lt_irrefl _)
      · exact ⟨w, rfl⟩
  · next other => exact ⟨.inl, fun either => either.resolve_right fun last => other last.1⟩

end Pending

section Following

theorem follow_of_not_link (found : g.nodes[id]? = some node) (plain : node.isLink = false)
    (n : Nat) : g.follow n id = .ok id := by
  unfold follow
  rw [node_eq_ok_iff.2 found]
  cases node with
  | link target => cases plain
  | _ => rfl

theorem follow_link {target : Nat} (found : g.nodes[id]? = some (.link target)) (n : Nat) :
    g.follow (n + 1) id = g.follow n target := by
  rw [follow, node_eq_ok_iff.2 found]
  rfl

/-- A walk ends where it starts, or takes a link first. -/
theorem follow_eq_ok {n : Nat} (walk : g.follow n id = .ok rep) :
    (∃ node, g.nodes[id]? = some node ∧ node.isLink = false ∧ rep = id) ∨
      ∃ target m, g.nodes[id]? = some (.link target) ∧ n = m + 1 ∧ g.follow m target = .ok rep := by
  unfold follow at walk
  obtain ⟨node, found, rest⟩ := bind_eq_ok_iff.1 walk
  have found := node_eq_ok_iff.1 found
  cases node with
  | link target =>
    cases n with
    | zero => cases rest
    | succ m => exact .inr ⟨target, m, found, rfl, rest⟩
  | _ =>
    cases rest
    exact .inl ⟨_, found, rfl, rfl⟩

theorem plain_of_follow {n : Nat} (walk : g.follow n id = .ok rep) :
    ∃ node, g.nodes[rep]? = some node ∧ node.isLink = false := by
  induction n generalizing id with
  | zero =>
    rcases follow_eq_ok walk with ⟨node, found, plain, rfl⟩ | ⟨_, _, _, impossible, _⟩
    · exact ⟨node, found, plain⟩
    · cases impossible
  | succ n ih =>
    rcases follow_eq_ok walk with ⟨node, found, plain, rfl⟩ | ⟨target, m, _, same, rest⟩
    · exact ⟨node, found, plain⟩
    · cases same
      exact ih rest

theorem follow_succ {n : Nat} (walk : g.follow n id = .ok rep) : g.follow (n + 1) id = .ok rep := by
  induction n generalizing id with
  | zero =>
    rcases follow_eq_ok walk with ⟨node, found, plain, rfl⟩ | ⟨_, _, _, impossible, _⟩
    · exact follow_of_not_link found plain 1
    · cases impossible
  | succ n ih =>
    rcases follow_eq_ok walk with ⟨node, found, plain, rfl⟩ | ⟨target, m, found, same, rest⟩
    · exact follow_of_not_link found plain (n + 2)
    · cases same
      rw [follow_link found]
      exact ih rest

theorem follow_mono {n m : Nat} (walk : g.follow n id = .ok rep) (le : n ≤ m) :
    g.follow m id = .ok rep := by
  induction le with
  | refl => exact walk
  | step _ ih => exact follow_succ ih

end Following

def linkCount (g : Graph V) : Nat := g.nodes.countP Node.isLink

/-- Every node has a representative, as many hops away as there are links at most. -/
def Linked (g : Graph V) : Prop :=
  ∀ id, id < g.size → ∃ rep, g.follow g.linkCount id = .ok rep

theorem linkCount_le_size (g : Graph V) : g.linkCount ≤ g.size := Array.countP_le_size

/-- A walk of any length finds the representative. -/
theorem representative_of_follow {n : Nat} (linked : g.Linked) (walk : g.follow n id = .ok rep)
    (inside : id < g.size) : g.representative id = .ok rep := by
  obtain ⟨other, short⟩ := linked id inside
  have one := follow_mono walk (Nat.le_max_left n g.linkCount)
  have two := follow_mono short (Nat.le_max_right n g.linkCount)
  cases one.symm.trans two
  exact follow_mono short (linkCount_le_size g)

theorem yields_representative (linked : g.Linked) (inside : id < g.size) :
    Yields (g.representative id) fun rep =>
      g.representative id = .ok rep ∧ ∃ node, g.nodes[rep]? = some node ∧ node.isLink = false := by
  obtain ⟨rep, walk⟩ := linked id inside
  have found := representative_of_follow linked walk inside
  exact .of_eq found ⟨found, plain_of_follow walk⟩

theorem representative_of_not_link (found : g.nodes[id]? = some node)
    (plain : node.isLink = false) : g.representative id = .ok id :=
  follow_of_not_link found plain _

/-- A link stands for what its target stands for. -/
theorem representative_of_link {target : Nat} (linked : g.Linked)
    (found : g.nodes[id]? = some (.link target)) (rest : g.representative target = .ok rep) :
    g.representative id = .ok rep := by
  refine representative_of_follow (n := g.size + 1) linked ?_ (lt_size found)
  rw [follow_link found]
  exact rest

section Growth

/-- What becomes of a graph: nodes stay, except that a pending attribute may be given a definition
and waiters, and one day a node in its place. -/
structure Grows (g g' : Graph V) : Prop where
  size : g.size ≤ g'.size
  kept : ∀ {id : Nat} {node : Node V}, g.nodes[id]? = some node → node.isPending = false →
    g'.nodes[id]? = some node
  pending : ∀ {id : Nat} {state : Pending}, g.nodes[id]? = some (.pending state) →
    (∃ state', g'.nodes[id]? = some (.pending state') ∧ state'.origin = state.origin ∧
      ∀ binding, state.binding = some binding → state'.binding = some binding) ∨
    ∃ node, g'.nodes[id]? = some node ∧ node.isPending = false

theorem Grows.refl (g : Graph V) : g.Grows g where
  size := Nat.le_refl _
  kept found _ := found
  pending found := .inl ⟨_, found, rfl, fun _ same => same⟩

theorem Grows.trans (first : g.Grows g') (second : g'.Grows g'') : g.Grows g'' where
  size := Nat.le_trans first.size second.size
  kept found known := second.kept (first.kept found known) known
  pending found := by
    rcases first.pending found with ⟨state', found', origin', binding'⟩ | ⟨node, found', known⟩
    · rcases second.pending found' with ⟨state'', found'', origin'', binding''⟩ | later
      · exact .inl ⟨state'', found'', origin''.trans origin', fun b same =>
          binding'' b (binding' b same)⟩
      · exact .inr later
    · exact .inr ⟨node, second.kept found' known, known⟩

theorem grows_alloc (g : Graph V) (node : Node V) : g.Grows (g.alloc node).2 := by
  have old : ∀ {id : Nat} {found : Node V}, g.nodes[id]? = some found →
      (g.alloc node).2.nodes[id]? = some found := by
    intro id found there
    rw [getElem?_alloc, if_neg (Nat.ne_of_lt (lt_size there)), there]
  refine ⟨?_, fun there _ => old there, fun there => .inl ⟨_, old there, rfl, fun _ same => same⟩⟩
  rw [size_alloc]
  exact Nat.le_succ _

/-- A change to a pending attribute, in its place. -/
theorem grows_put {state : Pending} (here : g.nodes[id]? = some (.pending state))
    (change : (∃ state', node = .pending state' ∧ state'.origin = state.origin ∧
      ∀ binding, state.binding = some binding → state'.binding = some binding) ∨
      node.isPending = false) : g.Grows (g.put id node) := by
  have inside := lt_size here
  refine ⟨Nat.le_of_eq (size_put g id node).symm, ?_, ?_⟩
  · intro other found there known
    have different : id ≠ other := by
      rintro rfl
      cases here.symm.trans there
      cases known
    rw [getElem?_put_ne different, there]
  · intro other found there
    by_cases same : id = other
    · subst same
      cases here.symm.trans there
      rcases change with ⟨state', rfl, origin, binding⟩ | known
      · exact .inl ⟨state', getElem?_put_self inside, origin, binding⟩
      · exact .inr ⟨node, getElem?_put_self inside, known⟩
    · refine .inl ⟨found, ?_, rfl, fun _ same => same⟩
      rw [getElem?_put_ne same, there]

theorem grows_put_waiters {state : Pending} {ws : List Nat}
    (here : g.nodes[id]? = some (.pending state)) :
    g.Grows (g.put id (.pending { state with waiters := ws })) :=
  grows_put here (.inl ⟨_, rfl, rfl, fun _ same => same⟩)

/-- Links are kept, so a walk leads where it led, and on from there. -/
theorem follow_through {n k r : Nat} (grows : g.Grows g') (walk : g.follow n id = .ok rep)
    (rest : g'.follow k rep = .ok r) : g'.follow (n + k) id = .ok r := by
  induction n generalizing id with
  | zero =>
    rcases follow_eq_ok walk with ⟨_, _, _, rfl⟩ | ⟨_, _, _, impossible, _⟩
    · rwa [Nat.zero_add]
    · cases impossible
  | succ n ih =>
    rcases follow_eq_ok walk with ⟨_, _, _, rfl⟩ | ⟨target, m, found, same, walk'⟩
    · exact follow_mono rest (Nat.le_add_left _ _)
    · cases same
      rw [Nat.add_right_comm, follow_link (grows.kept found rfl)]
      exact ih walk'

theorem representative_through {r : Nat} (grows : g.Grows g') (linked : g'.Linked)
    (walk : g.representative id = .ok rep) (rest : g'.representative rep = .ok r)
    (inside : id < g'.size) : g'.representative id = .ok r :=
  representative_of_follow linked (follow_through grows walk rest) inside

theorem lt_size_of_representative (walk : g.representative id = .ok rep) : id < g.size := by
  rcases follow_eq_ok walk with ⟨_, found, _⟩ | ⟨_, _, found, _⟩
  · exact lt_size found
  · exact lt_size found

/-- A representative that is no link later on is the representative still. -/
theorem Grows.representative (grows : g.Grows g') (linked : g'.Linked)
    (walk : g.representative id = .ok rep) (found : g'.nodes[rep]? = some node)
    (plain : node.isLink = false) : g'.representative id = .ok rep := by
  have inside := Nat.lt_of_lt_of_le (lt_size_of_representative walk) grows.size
  exact representative_through grows linked walk (representative_of_not_link found plain) inside

/-- A known representative stays, with all that is known of it. -/
theorem Grows.resolve (grows : g.Grows g') (linked : g'.Linked)
    (walk : g.representative id = .ok rep) (found : g.nodes[rep]? = some node)
    (known : node.isPending = false) :
    g'.representative id = .ok rep ∧ g'.nodes[rep]? = some node := by
  obtain ⟨other, there, plain⟩ := plain_of_follow walk
  cases found.symm.trans there
  have found' := grows.kept found known
  exact ⟨grows.representative linked walk found' plain, found'⟩

end Growth

section Linked

theorem linked_empty : (empty : Graph V).Linked := fun _ inside => absurd inside (Nat.not_lt_zero _)

theorem linkCount_put {old : Node V} (here : g.nodes[id]? = some old) (plain : old.isLink = false) :
    (g.put id node).linkCount = g.linkCount + if node.isLink then 1 else 0 := by
  obtain ⟨inside, at_id⟩ := Array.getElem?_eq_some_iff.1 here
  unfold linkCount put
  rw [Array.setIfInBounds_def, dif_pos inside, Array.countP_set inside, at_id, plain]
  simp

/-- A graph stays linked if its links are kept and all that ended a walk still does, or is one hop
away from something that does. -/
theorem Linked.of_grows (linked : g.Linked) (grows : g.Grows g') (same : g'.size = g.size)
    (hop : Nat) (count : g.linkCount + hop ≤ g'.linkCount)
    (ends : ∀ rep node, g.nodes[rep]? = some node → node.isLink = false →
      ∃ r, g'.follow hop rep = .ok r) : g'.Linked := by
  intro id inside
  obtain ⟨rep, walk⟩ := linked id (same ▸ inside)
  obtain ⟨node, found, plain⟩ := plain_of_follow walk
  obtain ⟨r, rest⟩ := ends rep node found plain
  exact ⟨r, follow_mono (follow_through grows walk rest) count⟩

theorem Linked.alloc (linked : g.Linked) (plain : node.isLink = false) :
    (g.alloc node).2.Linked := by
  have count : (g.alloc node).2.linkCount = g.linkCount := by
    simp [linkCount, Graph.alloc, plain]
  intro id inside
  rw [size_alloc] at inside
  rcases Nat.lt_succ_iff_lt_or_eq.1 inside with old | rfl
  · obtain ⟨rep, walk⟩ := linked id old
    obtain ⟨found, there, plain⟩ := plain_of_follow walk
    have later : (g.alloc node).2.nodes[rep]? = some found := by
      rw [getElem?_alloc, if_neg (Nat.ne_of_lt (lt_size there)), there]
    rw [count]
    exact ⟨rep, follow_through (grows_alloc g node) walk (follow_of_not_link later plain 0)⟩
  · have found : (g.alloc node).2.nodes[g.size]? = some node := by
      rw [getElem?_alloc, if_pos rfl]
    exact ⟨g.size, follow_of_not_link found plain _⟩

/-- A node that is no link in the place of a pending attribute. -/
theorem Linked.put {state : Pending} (linked : g.Linked)
    (here : g.nodes[id]? = some (.pending state)) (grows : g.Grows (g.put id node))
    (plain : node.isLink = false) : (g.put id node).Linked := by
  refine linked.of_grows grows (size_put g id node) 0 ?_ ?_
  · rw [linkCount_put here rfl, plain]
    exact Nat.le_refl _
  · intro rep found there plain'
    by_cases same : id = rep
    · subst same
      exact ⟨id, follow_of_not_link (getElem?_put_self (lt_size here)) plain 0⟩
    · rw [← getElem?_put_ne same] at there
      exact ⟨rep, follow_of_not_link there plain' 0⟩

/-- A link in the place of a pending attribute, to another node that is none. -/
theorem Linked.put_link {state : Pending} {source : Nat} {found : Node V} (linked : g.Linked)
    (here : g.nodes[id]? = some (.pending state)) (there : g.nodes[source]? = some found)
    (plain : found.isLink = false) (different : id ≠ source) :
    (g.put id (.link source)).Linked := by
  have grows : g.Grows (g.put id (.link source)) := grows_put here (.inr rfl)
  have target : (g.put id (.link source)).nodes[source]? = some found := by
    rw [getElem?_put_ne different, there]
  refine linked.of_grows grows (size_put g id _) 1 ?_ ?_
  · rw [linkCount_put here rfl]
    exact Nat.le_refl _
  · intro rep node at_rep plain'
    by_cases same : id = rep
    · subst same
      refine ⟨source, ?_⟩
      rw [follow_link (getElem?_put_self (lt_size here))]
      exact follow_of_not_link target plain 0
    · rw [← getElem?_put_ne same] at at_rep
      exact ⟨rep, follow_of_not_link at_rep plain' 1⟩

end Linked

end Graph

end GrammarMachine
