import Mathlib.Data.Fintype.Card
import Mathlib.Data.Fintype.EquivFin
import Mathlib.Data.Set.Card
import Mathlib.Logic.Relation

/-!
Relations without circles. On finitely many points, following such a relation comes to an end, after
no more steps than there are points.
-/

namespace GrammarMachine

/-- No point can be reached from itself. -/
def Acyclic {α : Type} (r : α → α → Prop) : Prop := ∀ a, ¬Relation.TransGen r a a

namespace Acyclic

variable {α : Type} {r : α → α → Prop}

theorem wellFounded [Finite α] (acyclic : Acyclic r) :
    WellFounded fun b a => Relation.TransGen r a b := by
  have : IsTrans α fun b a => Relation.TransGen r a b := ⟨fun _ _ _ first second =>
    second.trans first⟩
  have : Std.Irrefl fun b a => Relation.TransGen r a b := ⟨acyclic⟩
  exact Finite.wellFounded_of_trans_of_irrefl _

/-- A relation that decreases a rank has no circles. -/
theorem of_rank (rank : α → Nat) (decreases : ∀ a b, r a b → rank b < rank a) : Acyclic r := by
  have below : ∀ a b, Relation.TransGen r a b → rank b < rank a := by
    intro a b path
    induction path with
    | single step => exact decreases _ _ step
    | tail _ step ih => exact Nat.lt_trans (decreases _ _ step) ih
  exact fun a circle => Nat.lt_irrefl _ (below a a circle)

/-- Among the numbers below a bound, points that always lead on lead round. -/
theorem not_of_leads {r : Nat → Nat → Prop} (acyclic : Acyclic r) {P : Nat → Prop} (bound : Nat)
    (inside : ∀ n, P n → n < bound) (leads : ∀ n, P n → ∃ m, P m ∧ r n m) (n : Nat) : ¬P n := by
  have circles : Acyclic fun i j : Fin bound => r i.val j.val := fun i path =>
    acyclic i.val (path.lift Fin.val fun _ _ step => step)
  have none : ∀ i : Fin bound, ¬P i.val := by
    intro i
    induction i using circles.wellFounded.induction with
    | h i ih =>
      intro holds
      obtain ⟨m, later, step⟩ := leads i.val holds
      exact ih ⟨m, inside m later⟩ (.single step) later
  exact fun holds => none ⟨n, inside n holds⟩ holds

end Acyclic

/-- On the numbers below a bound, descent along a relation takes fewer steps than there are numbers:
count what can be reached. -/
theorem exists_rank_of_wellFounded {r : Nat → Nat → Prop} {bound : Nat} (wf : WellFounded r)
    (inside : ∀ a b, r b a → b < bound) :
    ∃ rank : Nat → Nat, (∀ a b, r b a → rank b < rank a) ∧ ∀ a < bound, rank a < bound := by
  have below : ∀ a, {b | Relation.TransGen r b a} ⊆ (Finset.range bound : Set Nat) := by
    intro a b path
    obtain ⟨c, first, _⟩ := Relation.TransGen.head'_iff.1 path
    exact Finset.mem_coe.2 (Finset.mem_range.2 (inside c b first))
  have irrefl : ∀ a, ¬Relation.TransGen r a a := fun a circle =>
    wf.transGen.irrefl.irrefl a circle
  refine ⟨fun a => {b | Relation.TransGen r b a}.ncard, fun a b step => ?_, fun a lt => ?_⟩
  · refine Set.ncard_lt_ncard ⟨fun c path => path.tail step, fun all => ?_⟩
      ((Finset.range bound).finite_toSet.subset (below a))
    exact irrefl b (all (.single step))
  · have smaller : {b | Relation.TransGen r b a} ⊂ (Finset.range bound : Set Nat) :=
      ⟨below a, fun all => irrefl a (all (Finset.mem_coe.2 (Finset.mem_range.2 lt)))⟩
    have count := Set.ncard_lt_ncard smaller (Finset.range bound).finite_toSet
    rwa [Set.ncard_coe_finset, Finset.card_range] at count

end GrammarMachine
