import Mathlib.Logic.Relation
import GrammarMachine.Proofs.Evaluation.Grounding

/-!
The shape of a result graph. Links form a forest, whichever way their numbers point; terms over what
their arguments stand for have no circle, since a term is built over known nodes only; and every
number held anywhere names a node. A sound and grounded graph has this shape, and so has what is
left of it once the attributes without a value are null, where every snapshot is complete.
-/

namespace GrammarMachine

/-- The numbers of nodes that a node holds. -/
def Node.ids {V : Type} : Node V → List Nat
  | .term _ children _ _ => children
  | .link target => [target]
  | .pending state => (state.binding.elim [] Binding.params) ++ state.waiters
  | _ => []

/-- A snapshot in which nothing is pending. -/
inductive Snapshot.Complete {V : Type} : Snapshot V → Prop
  | text (content : String) (pos : Nat) (error : Bool) : Complete (.text content pos error)
  | user (function : UInt32) (value : Option V) (pos : Nat) (error : Bool) :
      Complete (.user function value pos error)
  | term {function : UInt32} {children : List (Snapshot V)} {pos : Nat} {error : Bool}
      (below : ∀ s ∈ children, Complete s) : Complete (.term function children pos error)
  | null : Complete .null

namespace Graph

variable {V : Type} {g : Graph V} {depth id rep : Nat} {node : Node V}

/-- The node under `a` is a link to `b`. -/
def LinksTo (g : Graph V) (a b : Nat) : Prop := g.nodes[a]? = some (.link b)

/-- `child` stands for an argument of the term under `parent`. -/
def Under (g : Graph V) (child parent : Nat) : Prop :=
  ∃ f cs p x, g.nodes[parent]? = some (.term f cs p x) ∧ ∃ c ∈ cs, g.representative c = .ok child

structure Forest (g : Graph V) : Prop where
  /-- Links lead to the representative, which is none. -/
  links : ∀ {id : Nat}, id < g.size → ∃ rep node, Relation.ReflTransGen g.LinksTo id rep ∧
    g.nodes[rep]? = some node ∧ node.isLink = false ∧ g.representative id = .ok rep
  terms : WellFounded g.Under
  arguments : ∀ {child parent : Nat}, g.Under child parent → g.pendingAt child = false
  ids : ∀ {id : Nat} {node : Node V}, g.nodes[id]? = some node → ∀ n ∈ node.ids, n < g.size

theorem linksTo_of_follow {n : Nat} (walk : g.follow n id = .ok rep) :
    Relation.ReflTransGen g.LinksTo id rep := by
  induction n generalizing id with
  | zero =>
    rcases follow_eq_ok walk with ⟨_, _, _, rfl⟩ | ⟨_, _, _, impossible, _⟩
    · exact .refl
    · cases impossible
  | succ n ih =>
    rcases follow_eq_ok walk with ⟨_, _, _, rfl⟩ | ⟨target, m, found, same, rest⟩
    · exact .refl
    · cases same
      exact .head found (ih rest)

/-- What is known is not pending behind its links. -/
theorem Rooted.not_pendingAt (rooted : g.Rooted depth id) (walk : g.representative id = .ok rep) :
    g.pendingAt rep = false := by
  cases rooted with
  | leaf walk' found known =>
    cases walk.symm.trans walk'
    rw [pendingAt_eq found, known]
  | term walk' found =>
    cases walk.symm.trans walk'
    rw [pendingAt_eq found]
    rfl

/-- The depth of a tree bounds every descent into it. -/
theorem Rooted.acc (rooted : g.Rooted depth id) (walk : g.representative id = .ok rep) :
    Acc g.Under rep := by
  induction rooted generalizing rep with
  | leaf walk' found _ plain =>
    cases walk.symm.trans walk'
    refine ⟨_, ?_⟩
    rintro child ⟨f, cs, p, x, term, _⟩
    exact absurd (Option.some.inj (found.symm.trans term)) (plain f cs p x)
  | term walk' found _ ih =>
    cases walk.symm.trans walk'
    refine ⟨_, ?_⟩
    rintro child ⟨f, cs, p, x, term, c, mem, stands⟩
    cases found.symm.trans term
    exact ih c mem stands

/-- The arguments of a term under which all is known. -/
theorem Rooted.arguments {f : UInt32} {cs : List Nat} {p : Nat} {x : Bool}
    (rooted : g.Rooted depth id) (found : g.nodes[id]? = some (.term f cs p x)) :
    ∀ c ∈ cs, ∃ d, g.Rooted d c := by
  have here := representative_of_not_link found rfl
  cases rooted with
  | leaf walk found' _ plain =>
    cases here.symm.trans walk
    exact absurd (Option.some.inj (found'.symm.trans found)) (plain f cs p x)
  | term walk found' children =>
    cases here.symm.trans walk
    cases found'.symm.trans found
    exact fun c mem => ⟨_, children c mem⟩

theorem Rooted.lt_size (rooted : g.Rooted depth id) : id < g.size := by
  cases rooted with
  | leaf walk => exact lt_size_of_representative walk
  | term walk => exact lt_size_of_representative walk

/-- Links that lead on, trees under all that is known, and pending attributes that name nodes. -/
theorem Forest.of_rooted (linked : g.Linked) (rooted : ∀ id, g.Known id → ∃ d, g.Rooted d id)
    (pending : ∀ {id : Nat} {state : Pending}, g.nodes[id]? = some (.pending state) →
      ∀ n ∈ (Node.pending state : Node V).ids, n < g.size) : g.Forest := by
  have term : ∀ {id : Nat} {f : UInt32} {cs : List Nat} {p : Nat} {x : Bool},
      g.nodes[id]? = some (.term f cs p x) → ∃ d, g.Rooted d id := fun found =>
    rooted _ ⟨_, _, representative_of_not_link found rfl, found, rfl⟩
  refine ⟨?_, ⟨fun parent => ?_⟩, ?_, ?_⟩
  · intro id inside
    obtain ⟨rep, walk, _, node, found, plain⟩ := yields_representative linked inside
    exact ⟨rep, node, linksTo_of_follow walk, found, plain, walk⟩
  · refine ⟨_, ?_⟩
    rintro child ⟨f, cs, p, x, found, c, mem, walk⟩
    obtain ⟨d, root⟩ := term found
    obtain ⟨d', below⟩ := root.arguments found c mem
    exact below.acc walk
  · rintro child parent ⟨f, cs, p, x, found, c, mem, walk⟩
    obtain ⟨d, root⟩ := term found
    obtain ⟨d', below⟩ := root.arguments found c mem
    exact below.not_pendingAt walk
  · intro id node found n mem
    cases node with
    | term f cs p x =>
      obtain ⟨d, root⟩ := term found
      obtain ⟨d', below⟩ := root.arguments found n mem
      exact below.lt_size
    | link target =>
      rw [List.mem_singleton.1 mem]
      obtain ⟨rep, walk⟩ := linked id (Graph.lt_size found)
      rcases follow_eq_ok walk with ⟨_, here, plain, _⟩ | ⟨_, m, here, _, rest⟩
      · cases found.symm.trans here
        cases plain
      · cases found.symm.trans here
        rcases follow_eq_ok rest with ⟨_, there, _⟩ | ⟨_, _, there, _⟩
        · exact Graph.lt_size there
        · exact Graph.lt_size there
    | pending state => exact pending found n mem
    | _ => exact nomatch mem

theorem Sound.forest {grammar : Grammar} (sound : g.Sound grammar) (grounded : g.Grounded) :
    g.Forest := by
  refine .of_rooted sound.linked (fun id known => ⟨_, grounded id known⟩) ?_
  rintro id ⟨binding, waiters, origin⟩ found n mem
  rcases List.mem_append.1 mem with param | waiter
  · cases binding with
    | none => exact nomatch param
    | some b => exact (sound.bound found).2 n param
  · exact sound.parked n (mem_parked.2 ⟨id, _, found, waiter⟩)

theorem forest_settle (linked : g.Linked) (grounded : g.Grounded) : g.settle.Forest := by
  refine .of_rooted (linked_settle linked) (fun id known => ?_) ?_
  · exact ⟨_, rooted_settle grounded linked (size_settle g ▸ known.lt_size)⟩
  · intro id state found
    have settled := not_pendingAt_settle g id
    rw [pendingAt_eq found] at settled
    cases settled

theorem exists_of_mapM {α β : Type} {f : α → Except Fault β} {xs : List α} {ys : List β}
    (all : xs.mapM f = .ok ys) : ∀ y ∈ ys, ∃ x ∈ xs, f x = .ok y := by
  induction xs generalizing ys with
  | nil =>
    cases all
    simp
  | cons x rest ih =>
    obtain ⟨y, others, first, tail, rfl⟩ := mapM_cons_eq_ok_iff.1 all
    refine List.forall_mem_cons.2 ⟨⟨x, by simp, first⟩, fun z mem => ?_⟩
    obtain ⟨x', mem', eq⟩ := ih tail z mem
    exact ⟨x', List.mem_cons_of_mem x mem', eq⟩

/-- Where nothing is pending, no tree holds anything pending. -/
theorem complete_of_tree (settled : ∀ n, g.pendingAt n = false) {s : Snapshot V}
    (tree : g.tree depth id = .ok s) : s.Complete := by
  have leaf_complete : ∀ {id : Nat} {node : Node V} {s : Snapshot V},
      g.resolve id = .ok node → node.leaf? = some s → s.Complete := by
    intro id node s found leaf
    obtain ⟨rep, _, there⟩ := bind_eq_ok_iff.1 found
    have known := settled rep
    rw [pendingAt_eq (node_eq_ok_iff.1 there)] at known
    cases node with
    | pending => cases known
    | _ => cases leaf <;> constructor
  induction depth generalizing id s with
  | zero =>
    rcases tree_eq_ok tree with ⟨node, found, leaf⟩ | ⟨_, _, _, _, _, _, _, impossible, _⟩
    · exact leaf_complete found leaf
    · cases impossible
  | succ depth ih =>
    rcases tree_eq_ok tree with ⟨node, found, leaf⟩ | ⟨f, cs, p, x, d, ss, _, same, trees, rfl⟩
    · exact leaf_complete found leaf
    · cases same
      refine .term fun s mem => ?_
      obtain ⟨c, _, below⟩ := exists_of_mapM trees s mem
      exact ih below

end Graph

end GrammarMachine
