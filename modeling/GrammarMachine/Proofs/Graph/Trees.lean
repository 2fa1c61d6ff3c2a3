import GrammarMachine.Proofs.Graph.Snapshots
import Mathlib.Data.List.Forall2

/-!
The tree that a known node shows, as a relation. It is unique and stays as the graph grows, and
where a graph is grounded it is the node's snapshot. After a parse is settled, a node that shows no
tree has the snapshot null.
-/

namespace GrammarMachine

theorem mapM_eq_ok_iff {ε α β : Type} {f : α → Except ε β} {xs : List α} {ys : List β} :
    xs.mapM f = .ok ys ↔ List.Forall₂ (fun x y => f x = .ok y) xs ys := by
  induction xs generalizing ys with
  | nil =>
    simp only [List.mapM_nil, List.forall₂_nil_left_iff, pure, Except.pure, Except.ok.injEq,
      eq_comm]
  | cons x rest ih =>
    rw [mapM_cons_eq_ok_iff, List.forall₂_cons_left_iff]
    simp only [ih]

theorem exists_forall₂ {α β : Type} {R : α → β → Prop} {xs : List α}
    (each : ∀ x ∈ xs, ∃ y, R x y) : ∃ ys, List.Forall₂ R xs ys := by
  induction xs with
  | nil => exact ⟨[], .nil⟩
  | cons x rest ih =>
    obtain ⟨first, others⟩ := List.forall_mem_cons.1 each
    obtain ⟨y, related⟩ := first
    obtain ⟨ys, all⟩ := ih others
    exact ⟨y :: ys, .cons related all⟩

/-- Is the tree an error at its root? -/
def Snapshot.isError {V : Type} : Snapshot V → Bool
  | .text _ _ error => error
  | .user _ _ _ error => error
  | .term _ _ _ error => error
  | .null => true
  | .pending => false

namespace Graph

variable {V : Type} {g g' : Graph V} {id rep depth : Nat} {node : Node V} {s s' : Snapshot V}

/-- The tree under a known node. -/
inductive Shows (g : Graph V) : Nat → Snapshot V → Prop
  | leaf {id rep : Nat} {node : Node V} {s : Snapshot V} (walk : g.representative id = .ok rep)
      (found : g.nodes[rep]? = some node) (known : node.isPending = false)
      (leaf : node.leaf? = some s) : Shows g id s
  | term {id rep : Nat} {f : UInt32} {cs : List Nat} {ss : List (Snapshot V)} {p : Nat} {x : Bool}
      (walk : g.representative id = .ok rep) (found : g.nodes[rep]? = some (.term f cs p x))
      (length : cs.length = ss.length) (children : ∀ {c s}, (c, s) ∈ cs.zip ss → Shows g c s) :
      Shows g id (.term f ss p x)

namespace Shows

theorem known (shown : g.Shows id s) : g.Known id := by
  cases shown with
  | leaf walk found known => exact ⟨_, _, walk, found, known⟩
  | term walk found => exact ⟨_, _, walk, found, rfl⟩

theorem isError (shown : g.Shows id s) : g.isError id = .ok s.isError := by
  cases shown with
  | @leaf id rep node _ walk found known leaf =>
    rw [isError_of_known walk found]
    cases node <;> cases leaf <;> rfl
  | term walk found => rw [isError_of_known walk found]; rfl

theorem congr {other : Nat} (shown : g.Shows id s)
    (same : g.representative other = g.representative id) : g.Shows other s := by
  cases shown with
  | leaf walk found known leaf => exact .leaf (same.trans walk) found known leaf
  | term walk found length children => exact .term (same.trans walk) found length children

/-- What a node shows, it shows for good. -/
theorem grows (shown : g.Shows id s) (grows : g.Grows g') (linked : g'.Linked) :
    g'.Shows id s := by
  induction shown with
  | leaf walk found known leaf =>
    obtain ⟨walk', found'⟩ := grows.resolve linked walk found known
    exact .leaf walk' found' known leaf
  | term walk found length _ ih =>
    obtain ⟨walk', found'⟩ := grows.resolve linked walk found rfl
    exact .term walk' found' length ih

theorem unique (first : g.Shows id s) (second : g.Shows id s') : s = s' := by
  induction first generalizing s' with
  | leaf walk found known leaf =>
    cases second with
    | leaf walk' found' _ leaf' =>
      cases walk.symm.trans walk'
      cases found.symm.trans found'
      exact Option.some.inj (leaf.symm.trans leaf')
    | term walk' found' =>
      cases walk.symm.trans walk'
      cases found.symm.trans found'
      cases leaf
  | @term id rep f cs ss p x walk found length _ ih =>
    cases second with
    | leaf walk' found' _ leaf' =>
      cases walk.symm.trans walk'
      cases found.symm.trans found'
      cases leaf'
    | @term _ _ _ _ ss' _ _ walk' found' length' children' =>
      cases walk.symm.trans walk'
      cases found.symm.trans found'
      have same : ss = ss' := by
        refine List.ext_getElem (length.symm.trans length') fun i inside inside' => ?_
        have at_i : (cs[i], ss[i]) ∈ cs.zip ss := by
          rw [← List.getElem_zip]
          exact List.getElem_mem (by simp; omega)
        have at_i' : (cs[i], ss'[i]) ∈ cs.zip ss' := by
          rw [← List.getElem_zip]
          exact List.getElem_mem (by simp; omega)
        exact ih at_i (children' at_i')
      rw [same]

end Shows

/-- Where a tree is known to exist, recursion finds what is shown. -/
theorem Rooted.shows_iff (rooted : g.Rooted depth id) :
    g.Shows id s ↔ g.tree depth id = .ok s := by
  induction rooted generalizing s with
  | @leaf depth id rep node walk found known plain =>
    have resolved : g.resolve id = .ok node := by
      rw [resolve, walk, ok_bind, node_eq_ok_iff.2 found]
    constructor
    · intro shown
      cases shown with
      | leaf walk' found' _ leaf =>
        cases walk.symm.trans walk'
        cases found.symm.trans found'
        exact tree_leaf resolved leaf depth
      | term walk' found' =>
        cases walk.symm.trans walk'
        exact absurd (Option.some.inj (found.symm.trans found')) (plain _ _ _ _)
    · intro built
      rcases tree_eq_ok built with ⟨_, resolved', leaf⟩ | ⟨_, _, _, _, _, _, resolved', _⟩
      · cases resolved.symm.trans resolved'
        exact .leaf walk found known leaf
      · exact absurd (Except.ok.inj (resolved.symm.trans resolved')) (plain _ _ _ _)
  | @term depth id rep f cs p x walk found children ih =>
    have resolved : g.resolve id = .ok (.term f cs p x) := by
      rw [resolve, walk, ok_bind, node_eq_ok_iff.2 found]
    constructor
    · intro shown
      cases shown with
      | leaf walk' found' _ leaf =>
        cases walk.symm.trans walk'
        cases found.symm.trans found'
        cases leaf
      | term walk' found' length children =>
        cases walk.symm.trans walk'
        cases found.symm.trans found'
        refine tree_term resolved (mapM_eq_ok_iff.2 (List.forall₂_iff_zip.2 ⟨length, ?_⟩))
        intro c s mem
        exact (ih c (List.of_mem_zip mem).1).1 (children mem)
    · intro built
      rcases tree_eq_ok built with ⟨_, resolved', leaf⟩ |
        ⟨_, _, _, _, d, ss, resolved', same, trees, rfl⟩
      · cases resolved.symm.trans resolved'
        cases leaf
      · cases resolved.symm.trans resolved'
        cases same
        obtain ⟨length, each⟩ := List.forall₂_iff_zip.1 (mapM_eq_ok_iff.1 trees)
        exact .term walk found length fun mem => (ih _ (List.of_mem_zip mem).1).2 (each mem)

theorem exists_shows (grounded : g.Grounded) (known : g.Known id) : ∃ s, g.Shows id s := by
  have rooted := grounded id known
  obtain ⟨s, tree⟩ := rooted.exists_tree
  exact ⟨s, rooted.shows_iff.2 tree⟩

theorem Shows.snapshot (shown : g.Shows id s) (grounded : g.Grounded) : g.snapshot id = .ok s := by
  have rooted := (grounded id shown.known).mono (Nat.sub_le g.size g.pendingCount)
  exact snapshot_of_tree (rooted.shows_iff.1 shown)

theorem snapshots_of_shows {ps : List Nat} {ss : List (Snapshot V)} (grounded : g.Grounded)
    (shown : List.Forall₂ g.Shows ps ss) : ps.mapM g.snapshot = .ok ss :=
  mapM_eq_ok_iff.2 (shown.imp fun _ _ shown => shown.snapshot grounded)

section Settling

/-- What a node shows is its snapshot in the end. -/
theorem Shows.snapshot_settle (shown : g.Shows id s) (grounded : g.Grounded) (linked : g.Linked) :
    g.settle.snapshot id = .ok s := by
  have rooted := rooted_settle grounded linked shown.known.lt_size
  have later := shown.grows (grows_settle g) (linked_settle linked)
  exact snapshot_of_tree (rooted.shows_iff.1 later)

/-- A node that shows nothing is null in the end. -/
theorem snapshot_settle_of_unknown (grounded : g.Grounded) (linked : g.Linked)
    (inside : id < g.size) (unknown : ∀ s, ¬g.Shows id s) : g.settle.snapshot id = .ok .null := by
  rcases known_or_pending linked inside with known | ⟨rep, walk, pending⟩
  · obtain ⟨s, shown⟩ := exists_shows grounded known
    exact absurd shown (unknown s)
  · obtain ⟨state, here⟩ := exists_pending_of_pendingAt pending
    have null := settle_of_pending here
    have walk' := (grows_settle g).representative (linked_settle linked) walk null rfl
    have shown : g.settle.Shows id .null := .leaf walk' null rfl rfl
    exact snapshot_of_tree ((rooted_settle grounded linked inside).shows_iff.1 shown)

end Settling

end Graph

end GrammarMachine
