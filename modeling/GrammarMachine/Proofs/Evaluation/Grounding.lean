import GrammarMachine.Proofs.Evaluation.Moves
import GrammarMachine.Proofs.Graph.Snapshots

/-!
Evaluation builds terms over known nodes only, so that there is a tree under everything that is
known.
-/

namespace GrammarMachine.Evaluation

variable {σ V : Type} {g : Grammar} {h : Host σ V} {e e' : Evaluation σ V} {target : Nat}

theorem Computed.rooted {a : SemanticAction} {ps : List Nat} {o : Origin} {node : Node V}
    {e₁ : Evaluation σ V} (computed : Computed h a ps o e node e₁) {graph : Graph V} {depth : Nat}
    (there : graph.nodes[target]? = some node) (params : ∀ p ∈ ps, graph.Rooted depth p) :
    graph.Rooted (depth + 1) target := by
  have walk := Graph.representative_of_not_link there computed.plain.2.1
  cases computed with
  | term => exact .term walk there params
  | null => exact .leaf walk there rfl nofun
  | value => exact .leaf walk there rfl nofun
  | refusal => exact .leaf walk there rfl nofun

theorem Attempted.grounded (attempted : Attempted g h target e e') (healthy : e.Sound g)
    (grounded : e.graph.Grounded) : e'.graph.Grounded := by
  have linked := healthy.graph.linked
  have linked' := (attempted.sound healthy).graph.linked
  cases attempted with
  | idle => exact grounded
  | self => exact grounded
  | @join b w o a p source state here _ _ _ _ different there =>
    have between := (healthy.graph.put_link here there rfl different).linked
    have later : (e.graph.put target (.link source)).nodes[source]? = some (.pending state) := by
      rw [Graph.getElem?_put_ne different, there]
    -- The link leads to a pending attribute, so it is not known either.
    have linking : (e.graph.put target (.link source)).Grounded := by
      refine grounded.put linked here (Graph.grows_put here (.inr rfl)) between fun known => ?_
      obtain ⟨rep, node, walk, found, settled⟩ := known
      have at_target : (e.graph.put target (.link source)).nodes[target]? = some (.link source) :=
        Graph.getElem?_put_self (Graph.lt_size here)
      have stays := Graph.representative_of_not_link later rfl
      cases (Graph.representative_of_link between at_target stays).symm.trans walk
      cases later.symm.trans found
      cases settled
    exact linking.put_pending between later (Graph.grows_put_waiters later) linked'
  | @link b w o a p source found here _ _ _ walk different there settled =>
    have grows : e.graph.Grows (e.graph.put target (.link source)) :=
      Graph.grows_put here (.inr rfl)
    refine grounded.put linked here grows linked' fun _ => ?_
    obtain ⟨found', there', plain⟩ := Graph.plain_of_follow walk
    cases there.symm.trans there'
    have stays := Graph.representative_of_not_link there plain
    have source_rooted := grounded source ⟨source, found, stays, there, settled⟩
    obtain ⟨stays', _⟩ := grows.resolve linked' stays there settled
    have at_target : (e.graph.put target (.link source)).nodes[target]? = some (.link source) :=
      Graph.getElem?_put_self (Graph.lt_size here)
    have same := Graph.representative_of_link linked' at_target stays'
    refine ((source_rooted.grows grows linked').mono ?_).congr (same.trans stays'.symm)
    rw [Graph.knownCount_put here]
    exact Nat.le_add_right _ _
  | park here _ _ _ there =>
    dsimp only
    split
    · exact grounded
    · have inside : ∀ n ∈ [target], n < e.graph.size := by simpa using Graph.lt_size here
      have linked' := (healthy.graph.put_waiters there inside).linked
      exact grounded.put_pending linked there (Graph.grows_put_waiters there) linked'
  | settle here _ _ _ known computed =>
    have settled := computed.plain.1
    have grows := Graph.grows_put here (.inr settled)
    refine grounded.put linked here grows linked' fun _ => ?_
    rw [Graph.knownCount_put here, settled]
    refine computed.rooted (Graph.getElem?_put_self (Graph.lt_size here)) fun p mem => ?_
    exact (grounded p (known p mem)).grows grows linked'

theorem Move.grounded {events : List (Event σ V)} (move : Move g h e events e')
    (healthy : e.Sound g) (grounded : e.graph.Grounded) : e'.graph.Grounded := by
  have linked := healthy.graph.linked
  cases move with
  | note same =>
    rw [same.graph]
    exact grounded
  | leaf leaf =>
    refine grounded.alloc linked (Node.plain_of_isLeaf leaf).2.1 ?_
    rintro f cs p x rfl
    cases leaf
  | declare => exact grounded.alloc linked rfl nofun
  | define here defines params attempted =>
    have ready := healthy.defined here defines params
    have pending := grounded.put_pending linked here (grows_defined here) ready.graph.linked
    exact attempted.grounded ready pending
  | replay queued attempted => exact attempted.grounded (healthy.taken queued) grounded

theorem Runs.grounded {events : List (Event σ V)} (run : Runs g h e events e') (healthy : e.Sound g)
    (grounded : e.graph.Grounded) : e'.graph.Grounded :=
  run.keeps (P := fun _ e => e.graph.Grounded) Move.grounded healthy grounded

end GrammarMachine.Evaluation
