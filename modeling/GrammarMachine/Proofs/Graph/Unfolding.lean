import GrammarMachine.Proofs.Acyclic
import GrammarMachine.Proofs.Graph.Snapshots

/-!
Snapshots of any graph in which links and arguments lead to an end, whatever their numbers. The tree
under a node is then the recursion on what the node holds, and the machine with two stacks builds
it: a visit leaves one more tree on the finished ones and the rest of the work as it was.
-/

namespace GrammarMachine

/-- The nodes that a node leads to: what it stands for, or the arguments of a term. -/
def Node.below {V : Type} : Node V → List Nat
  | .term _ children _ _ => children
  | .link target => [target]
  | _ => []

/-- The machine between two turns: the stack of work, and the finished trees, last one first. -/
structure Assembly (V : Type) where
  work : List Graph.Work
  built : List (Snapshot V)

namespace Graph

variable {V : Type} {g : Graph V} {id rep : Nat} {node : Node V} {s : Snapshot V}
  {f : UInt32} {cs : List Nat} {p : Nat} {x : Bool}

/-- The node under `a` leads to `b`. -/
def Below (g : Graph V) (b a : Nat) : Prop := ∃ node, g.nodes[a]? = some node ∧ b ∈ node.below

/-- All that nodes lead to is there, and no way through them goes on for ever. -/
structure Founded (g : Graph V) : Prop where
  inside : ∀ {a b : Nat}, g.Below b a → b < g.size
  wf : WellFounded g.Below

/-- The tree under a node: of a link, that under its target, and of a term, a term over those under
its arguments. -/
def unfold (g : Graph V) (founded : g.Founded) (id : Nat) : Snapshot V :=
  match _here : g.nodes[id]? with
  | some (.text content pos error) => .text content pos error
  | some (.user function value pos error) => .user function value pos error
  | some (.term function children pos error) =>
    .term function (children.attach.map fun c => g.unfold founded c.val) pos error
  | some .null => .null
  | some (.pending _) => .pending
  | some (.link target) => g.unfold founded target
  | none => .null
termination_by founded.wf.wrap id
decreasing_by
  · exact ⟨_, _here, c.property⟩
  · exact ⟨_, _here, List.mem_singleton_self _⟩

section Unfolding

variable {founded : g.Founded}

theorem unfold_leaf (here : g.nodes[id]? = some node) (leaf : node.leaf? = some s) :
    g.unfold founded id = s := by
  unfold unfold
  cases node <;> cases leaf <;> split <;> simp_all

theorem unfold_term (here : g.nodes[id]? = some (.term f cs p x)) :
    g.unfold founded id = .term f (cs.map (g.unfold founded)) p x := by
  conv_lhs => unfold unfold
  split <;> simp_all

theorem unfold_link {target : Nat} (here : g.nodes[id]? = some (.link target)) :
    g.unfold founded id = g.unfold founded target := by
  conv_lhs => unfold unfold
  split <;> simp_all

end Unfolding

section Founded

variable {founded : g.Founded}

theorem Founded.exists_rank (founded : g.Founded) :
    ∃ rank : Nat → Nat, (∀ a b, g.Below b a → rank b < rank a) ∧ ∀ a < g.size, rank a < g.size :=
  exists_rank_of_wellFounded founded.wf fun _ _ => founded.inside

/-- Links come to an end within as many steps as the rank of their node. -/
theorem exists_follow {rank : Nat → Nat} (descends : ∀ a b, g.Below b a → rank b < rank a)
    (founded : g.Founded) (lt : id < g.size) : ∃ rep, g.follow (rank id) id = .ok rep := by
  induction id using founded.wf.induction with
  | h id ih =>
    obtain ⟨node, here⟩ := exists_node lt
    cases plain : node.isLink with
    | false => exact ⟨id, follow_of_not_link here plain _⟩
    | true =>
      cases node with
      | link target =>
        have below : g.Below target id := ⟨_, here, List.mem_singleton_self _⟩
        obtain ⟨rep, walk⟩ := ih target below (founded.inside below)
        refine ⟨rep, follow_mono ?_ (descends id target below)⟩
        rw [follow_link here, walk]
      | _ => cases plain

theorem resolve_of_link {target : Nat} (founded : g.Founded)
    (here : g.nodes[id]? = some (.link target)) : g.resolve id = g.resolve target := by
  obtain ⟨rank, descends, bounded⟩ := founded.exists_rank
  have below : g.Below target id := ⟨_, here, List.mem_singleton_self _⟩
  obtain ⟨rep, walk⟩ := exists_follow descends founded (founded.inside below)
  have size := bounded id (lt_size here)
  have next := descends id target below
  have from_target : g.representative target = .ok rep := follow_mono walk (by omega)
  have from_id : g.representative id = .ok rep := by
    refine follow_mono (n := rank target + 1) ?_ (by omega)
    rw [follow_link here, walk]
  rw [resolve, resolve, from_id, from_target]

theorem resolve_of_not_link (here : g.nodes[id]? = some node) (plain : node.isLink = false) :
    g.resolve id = .ok node := by
  rw [resolve, representative_of_not_link here plain, ok_bind, node_eq_ok_iff.2 here]

/-- What a node stands for and the tree under it: a leaf, or a term over nodes further down. -/
theorem resolve_unfold (founded : g.Founded) (lt : id < g.size) :
    (∃ node, g.resolve id = .ok node ∧ node.leaf? = some (g.unfold founded id)) ∨
      ∃ f cs p x, g.resolve id = .ok (.term f cs p x) ∧
        g.unfold founded id = .term f (cs.map (g.unfold founded)) p x ∧
        ∀ c ∈ cs, c < g.size ∧ Relation.TransGen g.Below c id := by
  induction id using founded.wf.induction with
  | h id ih =>
    obtain ⟨node, here⟩ := exists_node lt
    cases node with
    | link target =>
      have below : g.Below target id := ⟨_, here, List.mem_singleton_self _⟩
      rw [resolve_of_link founded here, unfold_link here]
      rcases ih target below (founded.inside below) with leaf | ⟨f, cs, p, x, found, tree, under⟩
      · exact .inl leaf
      · exact .inr ⟨f, cs, p, x, found, tree, fun c mem =>
          ⟨(under c mem).1, (under c mem).2.tail below⟩⟩
    | term f cs p x =>
      refine .inr ⟨f, cs, p, x, resolve_of_not_link here rfl, unfold_term here, fun c mem => ?_⟩
      have below : g.Below c id := ⟨_, here, mem⟩
      exact ⟨founded.inside below, .single below⟩
    | _ => exact .inl ⟨_, resolve_of_not_link here rfl, congrArg some (unfold_leaf here rfl).symm⟩

theorem mapM_eq_ok_map {ε α β : Type} {f : α → Except ε β} {h : α → β} {xs : List α}
    (each : ∀ a ∈ xs, f a = .ok (h a)) : xs.mapM f = .ok (xs.map h) := by
  induction xs with
  | nil => rfl
  | cons a rest ih =>
    obtain ⟨first, others⟩ := List.forall_mem_cons.1 each
    exact mapM_cons_eq_ok_iff.2 ⟨_, _, first, ih others, rfl⟩

/-- The tree by recursion to a depth, where the depth is no obstacle. -/
theorem tree_unfold (founded : g.Founded) (lt : id < g.size) :
    g.tree g.size id = .ok (g.unfold founded id) := by
  obtain ⟨rank, descends, bounded⟩ := founded.exists_rank
  have deeper : ∀ {a b : Nat}, Relation.TransGen g.Below b a → rank b < rank a := by
    intro a b path
    induction path with
    | single step => exact descends _ _ step
    | tail _ step ih => exact Nat.lt_trans ih (descends _ _ step)
  suffices ∀ depth, rank id < depth → g.tree depth id = .ok (g.unfold founded id) from
    this g.size (bounded id lt)
  induction id using founded.wf.transGen.induction with
  | h id ih =>
    intro depth enough
    rcases resolve_unfold founded lt with ⟨node, found, leaf⟩ | ⟨f, cs, p, x, found, tree, under⟩
    · exact tree_leaf found leaf depth
    · obtain ⟨d, rfl⟩ := Nat.exists_eq_add_of_lt enough
      rw [tree]
      refine tree_term found (mapM_eq_ok_map fun c mem => ?_)
      obtain ⟨inside, path⟩ := under c mem
      have shallower := deeper path
      exact ih c path inside _ (by omega)

end Founded

/-- One turn of the machine, which works off an item that stood on top. -/
def turn (g : Graph V) : Work → Assembly V → Except Fault (Assembly V)
  | .visit id, ⟨work, built⟩ => do
    match ← g.resolve id with
    | .text content pos error => return ⟨work, .text content pos error :: built⟩
    | .user function value pos error => return ⟨work, .user function value pos error :: built⟩
    | .term function children pos error =>
      return ⟨children.map .visit ++ .close function children.length pos error :: work, built⟩
    | .null => return ⟨work, .null :: built⟩
    | .pending _ => return ⟨work, .pending :: built⟩
    | .link target => .error (.link target)
  | .close function arity pos error, ⟨work, built⟩ =>
    if built.length < arity then .error .arity
    else return ⟨work, .term function (built.take arity).reverse pos error :: built.drop arity⟩

/-- The machine gets from one state to the next in a turn. -/
def Turns (g : Graph V) (a a' : Assembly V) : Prop :=
  ∃ item rest, a.work = item :: rest ∧ g.turn item ⟨rest, a.built⟩ = .ok a'

/-- The machine comes past a state on its way from another. -/
def Passes (g : Graph V) : Assembly V → Assembly V → Prop := Relation.ReflTransGen g.Turns

section Turning

variable {a a' a'' : Assembly V} {fuel : Nat} {work : List Work} {built : List (Snapshot V)}

/-- The machine takes its turns one after the other. -/
theorem assemble_cons (item : Work) (work : List Work) (built : List (Snapshot V)) :
    g.assemble (fuel + 1) (item :: work) built =
      g.turn item ⟨work, built⟩ >>= fun a => g.assemble fuel a.work a.built := by
  cases item with
  | visit id =>
    rw [assemble, turn]
    cases g.resolve id with
    | error fault => rfl
    | ok node => cases node <;> rfl
  | close f arity p x =>
    rw [assemble, turn]
    split <;> rfl

theorem assemble_of_turns (turns : g.Turns a a') :
    g.assemble (fuel + 1) a.work a.built = g.assemble fuel a'.work a'.built := by
  obtain ⟨item, rest, top, turned⟩ := turns
  rw [top, assemble_cons, turned, ok_bind]

theorem exists_assemble_of_passes (passes : g.Passes a a') :
    ∃ n, ∀ fuel, g.assemble (n + fuel) a.work a.built = g.assemble fuel a'.work a'.built := by
  induction passes with
  | refl => exact ⟨0, fun fuel => by rw [Nat.zero_add]⟩
  | tail _ turns ih =>
    obtain ⟨n, same⟩ := ih
    refine ⟨n + 1, fun fuel => ?_⟩
    rw [← assemble_of_turns turns, ← same, Nat.add_assoc, Nat.add_comm 1]

theorem Turns.unique (first : g.Turns a a') (second : g.Turns a a'') : a' = a'' := by
  obtain ⟨item, rest, top, turned⟩ := first
  obtain ⟨item', rest', top', turned'⟩ := second
  cases top.symm.trans top'
  exact Except.ok.inj (turned.symm.trans turned')

theorem turns_leaf (found : g.resolve id = .ok node) (leaf : node.leaf? = some s)
    (work : List Work) (built : List (Snapshot V)) :
    g.Turns ⟨.visit id :: work, built⟩ ⟨work, s :: built⟩ := by
  refine ⟨_, _, rfl, ?_⟩
  rw [turn, found, ok_bind]
  cases node <;> cases leaf <;> rfl

theorem turns_term (found : g.resolve id = .ok (.term f cs p x)) (work : List Work)
    (built : List (Snapshot V)) :
    g.Turns ⟨.visit id :: work, built⟩
      ⟨cs.map .visit ++ .close f cs.length p x :: work, built⟩ := by
  refine ⟨_, _, rfl, ?_⟩
  rw [turn, found, ok_bind]
  rfl

theorem turns_close (ss : List (Snapshot V)) (work : List Work) (built : List (Snapshot V)) :
    g.Turns ⟨.close f ss.length p x :: work, ss.reverse ++ built⟩
      ⟨work, .term f ss p x :: built⟩ := by
  refine ⟨_, _, rfl, ?_⟩
  have there : ¬(ss.reverse ++ built).length < ss.length := by simp
  rw [turn, if_neg there, List.take_left' List.length_reverse, List.drop_left' List.length_reverse,
    List.reverse_reverse]
  rfl

/-- There are enough finished trees for a term that is closed. -/
theorem Turns.arity_le {arity : Nat} {rest : List Work} (turns : g.Turns a a')
    (top : a.work = .close f arity p x :: rest) : arity ≤ a.built.length := by
  obtain ⟨item, rest', top', turned⟩ := turns
  cases top.symm.trans top'
  rw [turn] at turned
  split at turned
  · cases turned
  · omega

/-- Visits, one after the other, leave their trees on those there are. -/
theorem passes_visits {tree : Nat → Snapshot V}
    (each : ∀ c ∈ cs, ∀ work built, g.Passes ⟨.visit c :: work, built⟩ ⟨work, tree c :: built⟩)
    (work : List Work) (built : List (Snapshot V)) :
    g.Passes ⟨cs.map .visit ++ work, built⟩ ⟨work, (cs.map tree).reverse ++ built⟩ := by
  induction cs generalizing built with
  | nil => exact .refl
  | cons c rest ih =>
    obtain ⟨first, others⟩ := List.forall_mem_cons.1 each
    rw [List.map_cons, List.map_cons, List.reverse_cons, List.append_assoc]
    exact (first _ built).trans (ih others _)

/-- A visit leaves the tree under the node on those there are, whatever else is to be done. -/
theorem passes_visit (founded : g.Founded) (lt : id < g.size) (work : List Work)
    (built : List (Snapshot V)) :
    g.Passes ⟨.visit id :: work, built⟩ ⟨work, g.unfold founded id :: built⟩ := by
  induction id using founded.wf.transGen.induction generalizing work built with
  | h id ih =>
    rcases resolve_unfold founded lt with ⟨node, found, leaf⟩ | ⟨f, cs, p, x, found, tree, under⟩
    · exact .single (turns_leaf found leaf work built)
    · have visits := passes_visits (fun c mem => ih c (under c mem).2 (under c mem).1)
        (.close f cs.length p x :: work) built
      have close := turns_close (g := g) (f := f) (p := p) (x := x)
        (cs.map (g.unfold founded)) work built
      rw [List.length_map, ← tree] at close
      exact .head (turns_term found work built) (visits.tail close)

/-- What the machine comes past on its way to where it ends is on that way. -/
theorem Passes.of_passed (ends : g.Passes a ⟨[], built⟩) (passed : g.Passes a a') :
    g.Passes a' ⟨[], built⟩ := by
  have unique : Relator.RightUnique g.Turns := fun _ _ _ => Turns.unique
  rcases Relation.ReflTransGen.total_of_right_unique unique passed ends with ahead | behind
  · exact ahead
  · rcases behind.cases_head with rfl | ⟨_, ⟨_, _, top, _⟩, _⟩
    · exact .refl
    · cases top

end Turning

/-- The snapshot of a node is the tree under it. The machine that takes it comes to an end from
wherever it passes, with that tree alone on its stack, and never lacks one that a term is made
of. -/
theorem snapshot_eq_unfold (g : Graph V) (founded : g.Founded) {id : Nat} (lt : id < g.size) :
    g.snapshot id = .ok (g.unfold founded id) ∧
      g.Passes ⟨[.visit id], []⟩ ⟨[], [g.unfold founded id]⟩ ∧
      ∀ a, g.Passes ⟨[.visit id], []⟩ a →
        (∃ n, g.assemble n a.work a.built = .ok (g.unfold founded id)) ∧
        (a.work = [] → a.built = [g.unfold founded id]) ∧
        ∀ f arity p x rest, a.work = .close f arity p x :: rest → arity ≤ a.built.length := by
  have ends := passes_visit founded lt [] []
  refine ⟨snapshot_of_tree (tree_unfold founded lt), ends, fun a passed => ?_⟩
  have on := ends.of_passed passed
  refine ⟨?_, fun done => ?_, fun f arity p x rest top => ?_⟩
  · obtain ⟨n, same⟩ := exists_assemble_of_passes on
    exact ⟨n, same 0⟩
  · rcases on.cases_head with rfl | ⟨_, ⟨_, _, top, _⟩, _⟩
    · rfl
    · cases done.symm.trans top
  · rcases on.cases_head with rfl | ⟨_, turns, _⟩
    · cases top
    · exact turns.arity_le top

end Graph

namespace Samples

/-- Two terms that share a text and an attribute never found, and links that lead up and down. -/
def sharing : Graph Int :=
  ⟨#[.link 3, .text "a" 0 false, .term 7 [1, 0, 1, 5] 4 false, .term 8 [1, 4] 2 true,
    .pending ⟨none, [], ⟨5, 1, 6⟩⟩, .link 4, .link 2]⟩

/-- A number that every node of the sample has above those it leads to. -/
def sharingRank (id : Nat) : Nat := [3, 0, 4, 2, 0, 1, 5].getD id 0

theorem founded_sharing : sharing.Founded := by
  have each : ∀ b a, sharing.Below b a → b < sharing.size ∧ sharingRank b < sharingRank a := by
    rintro b a ⟨node, here, mem⟩
    have all : ∀ a (lt : a < 7), ∀ b ∈ (sharing.nodes[a]).below,
        b < 7 ∧ sharingRank b < sharingRank a := by decide
    obtain ⟨lt, rfl⟩ := Array.getElem?_eq_some_iff.1 here
    exact all a lt b mem
  exact ⟨fun below => (each _ _ below).1,
    Subrelation.wf (fun {b a} below => (each b a below).2) (measure sharingRank).wf⟩

end Samples

/-- What is shared in the graph is there once for each place in the tree. -/
theorem shared_nodes_are_copied : Samples.sharing.Founded ∧ 6 < Samples.sharing.size ∧
    Samples.sharing.snapshot 6 = .ok (.term 7 [.text "a" 0 false,
      .term 8 [.text "a" 0 false, .pending] 2 true, .text "a" 0 false, .pending] 4 false) := by
  have founded := Samples.founded_sharing
  have inside : 6 < Samples.sharing.size := by decide
  obtain ⟨snapshot, _⟩ := Graph.snapshot_eq_unfold Samples.sharing founded inside
  have text : Samples.sharing.unfold founded 1 = .text "a" 0 false := Graph.unfold_leaf rfl rfl
  have open_end : Samples.sharing.unfold founded 4 = .pending := Graph.unfold_leaf rfl rfl
  have inner : Samples.sharing.unfold founded 0 =
      .term 8 [.text "a" 0 false, .pending] 2 true := by
    rw [Graph.unfold_link rfl, Graph.unfold_term rfl]
    simp only [List.map_cons, List.map_nil, text, open_end]
  have last : Samples.sharing.unfold founded 5 = .pending :=
    (Graph.unfold_link rfl).trans open_end
  refine ⟨founded, inside, snapshot.trans (congrArg Except.ok ?_)⟩
  rw [Graph.unfold_link rfl, Graph.unfold_term rfl]
  simp only [List.map_cons, List.map_nil, text, inner, last]

end GrammarMachine
