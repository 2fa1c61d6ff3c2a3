/-!
Sorting by a key. Items with the same key keep their order.
-/

namespace GrammarMachine.Ascending

variable {α κ : Type} [LE κ] [DecidableLE κ]

/-- Puts an item in front of the first one whose key is not below its own. -/
def insert (key : α → κ) (x : α) : List α → List α
  | [] => [x]
  | y :: rest => if key x ≤ key y then x :: y :: rest else y :: insert key x rest

/-- The items in ascending order of their keys. -/
def sort (key : α → κ) : List α → List α
  | [] => []
  | x :: rest => insert key x (sort key rest)

theorem insert_perm (key : α → κ) (x : α) (xs : List α) : (insert key x xs).Perm (x :: xs) := by
  induction xs with
  | nil => exact .refl _
  | cons y rest ih =>
    unfold insert
    split
    · exact .refl _
    · exact (List.Perm.cons y ih).trans (.swap x y rest)

theorem sort_perm (key : α → κ) (xs : List α) : (sort key xs).Perm xs := by
  induction xs with
  | nil => exact .refl _
  | cons x rest ih => exact (insert_perm key x _).trans (.cons x ih)

variable [Std.IsLinearPreorder κ]

theorem pairwise_insert (key : α → κ) (x : α) {xs : List α}
    (ordered : xs.Pairwise fun y z => key y ≤ key z) :
    (insert key x xs).Pairwise fun y z => key y ≤ key z := by
  induction xs with
  | nil => exact List.pairwise_singleton _ _
  | cons y rest ih =>
    obtain ⟨least, others⟩ := List.pairwise_cons.1 ordered
    unfold insert
    split
    · next front =>
      refine List.pairwise_cons.2 ⟨fun z mem => ?_, ordered⟩
      rcases List.mem_cons.1 mem with rfl | later
      · exact front
      · exact Std.le_trans front (least z later)
    · next behind =>
      refine List.pairwise_cons.2 ⟨fun z mem => ?_, ih others⟩
      rcases List.mem_cons.1 ((insert_perm key x rest).mem_iff.1 mem) with rfl | later
      · exact Std.le_of_not_ge behind
      · exact least z later

theorem pairwise_sort (key : α → κ) (xs : List α) :
    (sort key xs).Pairwise fun y z => key y ≤ key z := by
  induction xs with
  | nil => exact List.Pairwise.nil
  | cons x rest ih => exact pairwise_insert key x ih

end GrammarMachine.Ascending
