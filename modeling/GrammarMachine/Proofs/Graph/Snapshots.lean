import GrammarMachine.Graph.Snapshot
import GrammarMachine.Proofs.Graph.Waiters

/-!
Snapshots. Where the tree under a node exists, working off a stack builds the same tree. The tree
under a known node exists, and stays as it is, as long as terms are built over known nodes: each
term is one node deeper than what it is built over.
-/

namespace GrammarMachine

theorem foldl_add (n : Nat) (ws : List Nat) : ws.foldl Nat.add n = n + ws.foldl Nat.add 0 := by
  induction ws generalizing n with
  | nil => rfl
  | cons w rest ih =>
    rw [List.foldl_cons, List.foldl_cons, ih (n.add w), ih (Nat.add 0 w)]
    simp only [Nat.add_eq, Nat.zero_add, Nat.add_assoc]

/-- The snapshot of a node that has no nodes below it. -/
def Node.leaf? {V : Type} : Node V → Option (Snapshot V)
  | .text content pos error => some (.text content pos error)
  | .user function value pos error => some (.user function value pos error)
  | .null => some .null
  | .pending _ => some .pending
  | .term _ _ _ _ => none
  | .link _ => none

namespace Graph

variable {V : Type} {g g' : Graph V} {depth id rep : Nat} {node : Node V} {s : Snapshot V}

section Trees

attribute [local simp] tree workload

/-- A tree is a leaf, or a term over trees. -/
theorem tree_eq_ok (built : g.tree depth id = .ok s) :
    (∃ node, g.resolve id = .ok node ∧ node.leaf? = some s) ∨
      ∃ f cs p x d ss, g.resolve id = .ok (.term f cs p x) ∧ depth = d + 1 ∧
        cs.mapM (g.tree d) = .ok ss ∧ s = .term f ss p x := by
  unfold tree at built
  obtain ⟨node, found, rest⟩ := bind_eq_ok_iff.1 built
  cases node with
  | term f cs p x =>
    cases depth with
    | zero => cases rest
    | succ d =>
      obtain ⟨ss, children, same⟩ := bind_eq_ok_iff.1 rest
      cases same
      exact .inr ⟨f, cs, p, x, d, ss, found, rfl, children, rfl⟩
  | link target => cases rest
  | _ =>
    cases rest
    exact .inl ⟨_, found, rfl⟩

theorem tree_leaf (found : g.resolve id = .ok node) (leaf : node.leaf? = some s) (depth : Nat) :
    g.tree depth id = .ok s := by
  unfold tree
  rw [found]
  cases node <;> cases leaf <;> rfl

theorem tree_term {f : UInt32} {cs : List Nat} {p : Nat} {x : Bool} {ss : List (Snapshot V)}
    (found : g.resolve id = .ok (.term f cs p x)) (children : cs.mapM (g.tree depth) = .ok ss) :
    g.tree (depth + 1) id = .ok (.term f ss p x) := by
  simp [found, children, pure, Except.pure]

theorem workload_leaf (found : g.resolve id = .ok node) (leaf : node.leaf? = some s) (depth : Nat) :
    g.workload depth id = .ok 1 := by
  unfold workload
  rw [found]
  cases node <;> cases leaf <;> rfl

theorem assemble_leaf (found : g.resolve id = .ok node) (leaf : node.leaf? = some s) (fuel : Nat)
    (work : List Work) (built : List (Snapshot V)) :
    g.assemble (1 + fuel) (.visit id :: work) built = g.assemble fuel work (s :: built) := by
  rw [Nat.add_comm, assemble, found]
  cases node <;> cases leaf <;> rfl

/-- Work for a list of trees is done one after the other. -/
theorem assemble_children {cs : List Nat} {ss : List (Snapshot V)}
    (trees : cs.mapM (g.tree depth) = .ok ss)
    (each : ∀ {c : Nat} {s : Snapshot V}, g.tree depth c = .ok s → ∃ w, g.workload depth c = .ok w ∧
      ∀ fuel work built,
        g.assemble (w + fuel) (.visit c :: work) built = g.assemble fuel work (s :: built)) :
    ss.length = cs.length ∧ ∃ ws, cs.mapM (g.workload depth) = .ok ws ∧ ∀ fuel work built,
      g.assemble (ws.foldl Nat.add fuel) (cs.map .visit ++ work) built =
        g.assemble fuel work (ss.reverse ++ built) := by
  induction cs generalizing ss with
  | nil =>
    cases trees
    exact ⟨rfl, [], rfl, fun fuel work built => by simp⟩
  | cons c rest ih =>
    obtain ⟨s, others, first, tail, rfl⟩ := mapM_cons_eq_ok_iff.1 trees
    obtain ⟨w, load, step⟩ := each first
    obtain ⟨length, ws, loads, steps⟩ := ih tail
    refine ⟨congrArg Nat.succ length, w :: ws,
      mapM_cons_eq_ok_iff.2 ⟨w, ws, load, loads, rfl⟩, fun fuel work built => ?_⟩
    have first : (w :: ws).foldl Nat.add fuel = w + ws.foldl Nat.add fuel := by
      rw [List.foldl_cons, foldl_add, foldl_add fuel, Nat.add_eq]
      omega
    rw [first, List.map_cons, List.cons_append, List.reverse_cons, List.append_assoc, step, steps]
    rfl

/-- Working off a stack builds the tree that recursion builds. -/
theorem assemble_of_tree (tree : g.tree depth id = .ok s) :
    ∃ w, g.workload depth id = .ok w ∧ ∀ fuel work built,
      g.assemble (w + fuel) (.visit id :: work) built = g.assemble fuel work (s :: built) := by
  induction depth generalizing id s with
  | zero =>
    rcases tree_eq_ok tree with ⟨node, found, leaf⟩ | ⟨_, _, _, _, _, _, _, impossible, _⟩
    · exact ⟨1, workload_leaf found leaf 0, assemble_leaf found leaf⟩
    · cases impossible
  | succ depth ih =>
    rcases tree_eq_ok tree with ⟨node, found, leaf⟩ | ⟨f, cs, p, x, d, ss, found, same, trees, rfl⟩
    · exact ⟨1, workload_leaf found leaf _, assemble_leaf found leaf⟩
    · cases same
      obtain ⟨length, ws, loads, steps⟩ := assemble_children trees ih
      refine ⟨ws.foldl Nat.add 2, ?_, fun fuel work built => ?_⟩
      · simp [found, loads, pure, Except.pure]
      · have total : ws.foldl Nat.add 2 + fuel = ws.foldl Nat.add (fuel + 1) + 1 := by
          rw [foldl_add 2, foldl_add (fuel + 1)]
          omega
        have reversed : ss.reverse.length = cs.length := by rw [List.length_reverse, length]
        rw [total, assemble, found]
        show g.assemble (ws.foldl Nat.add (fuel + 1)) (cs.map .visit ++ _ :: work) built = _
        rw [steps, assemble, if_neg (by simp [length]), List.take_left' reversed,
          List.drop_left' reversed, List.reverse_reverse]

theorem snapshot_of_tree (tree : g.tree g.size id = .ok s) : g.snapshot id = .ok s := by
  obtain ⟨w, load, step⟩ := assemble_of_tree tree
  unfold snapshot
  rw [load]
  exact (step 0 [] []).trans rfl

/-- Nodes that stand for the same have the same tree. -/
theorem tree_congr {other : Nat} (same : g.resolve id = g.resolve other) (depth : Nat) :
    g.tree depth id = g.tree depth other := by
  simp [same]

end Trees

/-- All of the tree under a node is known, and it is at most so many terms deep. -/
inductive Rooted (g : Graph V) : Nat → Nat → Prop
  | leaf {depth id rep : Nat} {node : Node V} (walk : g.representative id = .ok rep)
      (found : g.nodes[rep]? = some node) (known : node.isPending = false)
      (plain : ∀ f cs p x, node ≠ .term f cs p x) : Rooted g depth id
  | term {depth id rep : Nat} {f : UInt32} {cs : List Nat} {p : Nat} {x : Bool}
      (walk : g.representative id = .ok rep) (found : g.nodes[rep]? = some (.term f cs p x))
      (children : ∀ c ∈ cs, Rooted g depth c) : Rooted g (depth + 1) id

namespace Rooted

theorem mono {depth' : Nat} (rooted : g.Rooted depth id) (le : depth ≤ depth') :
    g.Rooted depth' id := by
  induction rooted generalizing depth' with
  | leaf walk found known plain => exact .leaf walk found known plain
  | term walk found _ ih =>
    cases depth' with
    | zero => omega
    | succ d => exact .term walk found fun c mem => ih c mem (by omega)

/-- What is known stays known, with all below it. -/
theorem grows (rooted : g.Rooted depth id) (grows : g.Grows g') (linked : g'.Linked) :
    g'.Rooted depth id := by
  induction rooted with
  | leaf walk found known plain =>
    obtain ⟨walk', found'⟩ := grows.resolve linked walk found known
    exact .leaf walk' found' known plain
  | term walk found _ ih =>
    obtain ⟨walk', found'⟩ := grows.resolve linked walk found rfl
    exact .term walk' found' ih

theorem congr {other : Nat} (rooted : g.Rooted depth id)
    (same : g.representative other = g.representative id) : g.Rooted depth other := by
  cases rooted with
  | leaf walk found known plain => exact .leaf (same.trans walk) found known plain
  | term walk found children => exact .term (same.trans walk) found children

theorem exists_tree (rooted : g.Rooted depth id) : ∃ s, g.tree depth id = .ok s := by
  induction rooted with
  | @leaf depth id rep node walk found known plain =>
    have resolved : g.resolve id = .ok node := by
      rw [resolve, walk, ok_bind, node_eq_ok_iff.2 found]
    obtain ⟨other, there, link⟩ := plain_of_follow walk
    cases found.symm.trans there
    cases node with
    | term f cs p x => exact absurd rfl (plain f cs p x)
    | pending => cases known
    | link => cases link
    | _ => exact ⟨_, tree_leaf resolved rfl depth⟩
  | @term depth id rep f cs p x walk found _ ih =>
    have resolved : g.resolve id = .ok (.term f cs p x) := by
      rw [resolve, walk, ok_bind, node_eq_ok_iff.2 found]
    obtain ⟨ss, trees⟩ := exists_mapM_eq_ok ih
    exact ⟨_, tree_term resolved trees⟩

end Rooted

/-- The number of nodes that are known, which bounds the depth of what is built over them. -/
def knownCount (g : Graph V) : Nat := g.size - g.pendingCount

/-- Under every known node is a tree. -/
def Grounded (g : Graph V) : Prop := ∀ id, g.Known id → g.Rooted g.knownCount id

theorem Known.lt_size (known : g.Known id) : id < g.size := by
  obtain ⟨rep, _, walk, _⟩ := known
  exact lt_size_of_representative walk

theorem not_known_of_pending {state : Pending} (here : g.nodes[id]? = some (.pending state)) :
    ¬g.Known id := by
  rintro ⟨rep, node, walk, found, known⟩
  cases (representative_of_not_link here rfl).symm.trans walk
  cases here.symm.trans found
  cases known

/-- A graph that grows stays grounded if there is a tree under what becomes known. -/
theorem Grounded.of_grows (grounded : g.Grounded) (linked : g.Linked) (grows : g.Grows g')
    (linked' : g'.Linked) (count : g.knownCount ≤ g'.knownCount)
    (settles : ∀ m, g.pendingAt m = true ∨ g.size ≤ m → g'.Known m →
      g'.Rooted g'.knownCount m) : g'.Grounded := by
  intro id known
  rcases Nat.lt_or_ge id g.size with inside | beyond
  · rcases known_or_pending linked inside with before | ⟨m, walk, pending⟩
    · exact ((grounded id before).grows grows linked').mono count
    · -- The node now stands for what the pending attribute stands for.
      obtain ⟨state, here⟩ := exists_pending_of_pendingAt pending
      have m_inside := Nat.lt_of_lt_of_le (lt_size here) grows.size
      obtain ⟨r, walk', _⟩ := yields_representative linked' m_inside
      have same := representative_through grows linked' walk walk'
        (Nat.lt_of_lt_of_le inside grows.size)
      obtain ⟨rep, node, at_id, facts⟩ := known
      cases same.symm.trans at_id
      exact (settles m (.inl pending) ⟨r, node, walk', facts⟩).congr (same.trans walk'.symm)
  · exact settles id (.inr beyond) known

section Changes

variable {target : Nat} {state : Pending}

theorem pendingCount_le_size (g : Graph V) : g.pendingCount ≤ g.size := List.countP_le_length

theorem knownCount_put (here : g.nodes[target]? = some (.pending state)) (node : Node V) :
    (g.put target node).knownCount = g.knownCount + if node.isPending then 0 else 1 := by
  have change := pendingCount_put here rfl node
  have before := pendingCount_le_size g
  unfold knownCount
  rw [size_put]
  split <;> simp_all only [if_true, if_false, Bool.false_eq_true] <;> omega

/-- A change to a pending attribute, with a tree under it if that makes it known. -/
theorem Grounded.put (grounded : g.Grounded) (linked : g.Linked)
    (here : g.nodes[target]? = some (.pending state)) (grows : g.Grows (g.put target node))
    (linked' : (g.put target node).Linked)
    (root : (g.put target node).Known target →
      (g.put target node).Rooted (g.put target node).knownCount target) :
    (g.put target node).Grounded := by
  refine grounded.of_grows linked grows linked' ?_ ?_
  · rw [knownCount_put here]
    exact Nat.le_add_right _ _
  · rintro m (pending | beyond) known
    · obtain ⟨before, there⟩ := exists_pending_of_pendingAt pending
      by_cases same : target = m
      · subst same
        exact root known
      · rw [← getElem?_put_ne same] at there
        exact absurd known (not_known_of_pending there)
    · have inside := known.lt_size
      rw [size_put] at inside
      omega

/-- An attribute that stays pending is not known. -/
theorem Grounded.put_pending {state' : Pending} (grounded : g.Grounded) (linked : g.Linked)
    (here : g.nodes[target]? = some (.pending state))
    (grows : g.Grows (g.put target (.pending state')))
    (linked' : (g.put target (.pending state')).Linked) :
    (g.put target (.pending state')).Grounded := by
  refine grounded.put linked here grows linked' fun known => ?_
  exact absurd known (not_known_of_pending (getElem?_put_self (lt_size here)))

/-- A new node that is no link and no term. -/
theorem Grounded.alloc (grounded : g.Grounded) (linked : g.Linked) (plain : node.isLink = false)
    (flat : ∀ f cs p x, node ≠ .term f cs p x) : (g.alloc node).2.Grounded := by
  have linked' := linked.alloc plain
  refine grounded.of_grows linked (grows_alloc g node) linked' ?_ ?_
  · have before := pendingCount_le_size g
    have after : (g.alloc node).2.pendingCount ≤ g.pendingCount + 1 := by
      unfold pendingCount Graph.alloc
      simp only [Array.toList_push, List.countP_append, List.countP_singleton]
      split <;> omega
    unfold knownCount
    rw [size_alloc]
    omega
  · rintro m (pending | beyond) known
    · obtain ⟨before, there⟩ := exists_pending_of_pendingAt pending
      have later : (g.alloc node).2.nodes[m]? = some (.pending before) := by
        rw [getElem?_alloc, if_neg (Nat.ne_of_lt (lt_size there)), there]
      exact absurd known (not_known_of_pending later)
    · have inside := known.lt_size
      obtain ⟨rep, found, walk, there, known⟩ := known
      rw [size_alloc] at inside
      have last : m = g.size := by omega
      have at_m : (g.alloc node).2.nodes[m]? = some node := by
        rw [getElem?_alloc, if_pos last]
      cases (representative_of_not_link at_m plain).symm.trans walk
      cases at_m.symm.trans there
      exact .leaf walk there known flat

end Changes

section Settling

@[simp] theorem size_settle (g : Graph V) : g.settle.size = g.size := by
  simp [settle, size]

theorem getElem?_settle (g : Graph V) (id : Nat) :
    g.settle.nodes[id]? = g.nodes[id]?.map fun node => if node.isPending then .null else node := by
  simp [settle]

theorem settle_of_pending {state : Pending} (here : g.nodes[id]? = some (.pending state)) :
    g.settle.nodes[id]? = some .null := by
  rw [getElem?_settle, here]
  rfl

theorem settle_of_known (here : g.nodes[id]? = some node) (known : node.isPending = false) :
    g.settle.nodes[id]? = some node := by
  rw [getElem?_settle, here]
  simp [known]

theorem grows_settle (g : Graph V) : g.Grows g.settle where
  size := Nat.le_of_eq (size_settle g).symm
  kept := settle_of_known
  pending here := .inr ⟨_, settle_of_pending here, rfl⟩

theorem linked_settle (linked : g.Linked) : g.settle.Linked := by
  have same : g.settle.linkCount = g.linkCount := by
    unfold linkCount settle
    simp only [List.countP_map, ← Array.countP_toList]
    refine List.countP_congr fun node _ => ?_
    cases node <;> exact .rfl
  refine linked.of_grows (grows_settle g) (size_settle g) 0 (Nat.le_of_eq same.symm) ?_
  intro rep node here plain
  cases pending : node.isPending with
  | true =>
    obtain ⟨state, rfl⟩ := Node.eq_pending_of_isPending pending
    exact ⟨rep, follow_of_not_link (settle_of_pending here) rfl 0⟩
  | false => exact ⟨rep, follow_of_not_link (settle_of_known here pending) plain 0⟩

theorem not_pendingAt_settle (g : Graph V) (id : Nat) : g.settle.pendingAt id = false := by
  unfold pendingAt
  rw [getElem?_settle]
  cases g.nodes[id]? with
  | none => rfl
  | some node => cases node <;> rfl

/-- In a settled graph all is known. -/
theorem rooted_settle (grounded : g.Grounded) (linked : g.Linked) (inside : id < g.size) :
    g.settle.Rooted g.settle.size id := by
  rcases known_or_pending linked inside with known | ⟨rep, walk, pending⟩
  · refine ((grounded id known).grows (grows_settle g) (linked_settle linked)).mono ?_
    rw [size_settle]
    exact Nat.sub_le _ _
  · obtain ⟨state, here⟩ := exists_pending_of_pendingAt pending
    have null := settle_of_pending here
    have walk' := (grows_settle g).representative (linked_settle linked) walk null rfl
    exact .leaf walk' null rfl nofun

/-- In a settled graph every node has a snapshot. -/
theorem exists_snapshot_settle (grounded : g.Grounded) (linked : g.Linked) (inside : id < g.size) :
    ∃ s, g.settle.tree g.settle.size id = .ok s ∧ g.settle.snapshot id = .ok s := by
  obtain ⟨s, tree⟩ := (rooted_settle grounded linked inside).exists_tree
  exact ⟨s, tree, snapshot_of_tree tree⟩

end Settling

end Graph

end GrammarMachine
