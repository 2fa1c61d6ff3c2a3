import GrammarMachine.Fault

/-!
Computations that succeed. `Yields x post` says that `x` ends in no fault and that what it returns
satisfies `post`; a chain of computations is followed one bind at a time. `Matches R x y` does the
same for two computations side by side.
-/

namespace GrammarMachine

variable {α β : Type}

/-- The computation returns a value, and the value satisfies `post`. -/
def Yields (x : Except Fault α) (post : α → Prop) : Prop :=
  ∃ a, x = .ok a ∧ post a

namespace Yields

variable {x : Except Fault α} {post post' : α → Prop}

theorem ok {a : α} (holds : post a) : Yields (.ok a) post :=
  ⟨a, rfl, holds⟩

theorem pure {a : α} (holds : post a) : Yields (pure a) post :=
  ⟨a, rfl, holds⟩

theorem of_eq {a : α} (eq : x = .ok a) (holds : post a) : Yields x post :=
  ⟨a, eq, holds⟩

theorem mono (first : Yields x post) (weaker : ∀ a, post a → post' a) : Yields x post' := by
  obtain ⟨a, eq, holds⟩ := first
  exact ⟨a, eq, weaker a holds⟩

theorem bind {f : α → Except Fault β} {post' : β → Prop} (first : Yields x post)
    (rest : ∀ a, post a → Yields (f a) post') : Yields (x >>= f) post' := by
  obtain ⟨a, rfl, holds⟩ := first
  exact rest a holds

/-- A computation whose result is known hands it on. -/
theorem bind_ok {f : α → Except Fault β} {post' : β → Prop} {a : α} (eq : x = .ok a)
    (rest : Yields (f a) post') : Yields (x >>= f) post' := by
  subst eq
  exact rest

/-- What a computation yields holds of the value that it returns. -/
theorem holds {a : α} (yields : Yields x post) (eq : x = .ok a) : post a := by
  obtain ⟨_, same, holds⟩ := yields
  cases eq.symm.trans same
  exact holds

end Yields

@[simp] theorem ok_bind {ε : Type} (a : α) (f : α → Except ε β) : (.ok a >>= f) = f a := rfl

theorem bind_eq_ok_iff {ε : Type} {x : Except ε α} {f : α → Except ε β} {b : β} :
    (x >>= f) = .ok b ↔ ∃ a, x = .ok a ∧ f a = .ok b := by
  cases x with
  | error e => simp [bind, Except.bind]
  | ok a => simp [bind, Except.bind]

/-- A step that only checks passes its check, and what follows goes on. -/
theorem bind_unit_eq_ok_iff {ε : Type} {x : Except ε Unit} {f : Unit → Except ε β} {b : β} :
    (x >>= f) = .ok b ↔ x = .ok () ∧ f () = .ok b := by
  cases x with
  | error e => simp [bind, Except.bind]
  | ok u => simp [bind, Except.bind]

theorem mapM_cons_eq_ok_iff {ε α β : Type} {f : α → Except ε β} {x : α} {xs : List α}
    {ys : List β} :
    (x :: xs).mapM f = .ok ys ↔
      ∃ y rest, f x = .ok y ∧ xs.mapM f = .ok rest ∧ ys = y :: rest := by
  rw [List.mapM_cons, bind_eq_ok_iff]
  constructor
  · rintro ⟨y, first, others⟩
    obtain ⟨rest, tail, same⟩ := bind_eq_ok_iff.1 others
    cases same
    exact ⟨y, rest, first, tail, rfl⟩
  · rintro ⟨y, rest, first, tail, rfl⟩
    exact ⟨y, first, bind_eq_ok_iff.2 ⟨rest, tail, rfl⟩⟩

theorem exists_mapM_eq_ok {ε α β : Type} {f : α → Except ε β} {xs : List α}
    (each : ∀ x ∈ xs, ∃ y, f x = .ok y) : ∃ ys, xs.mapM f = .ok ys := by
  induction xs with
  | nil => exact ⟨[], rfl⟩
  | cons x rest ih =>
    obtain ⟨⟨y, first⟩, others⟩ := List.forall_mem_cons.1 each
    obtain ⟨ys, tail⟩ := ih others
    exact ⟨y :: ys, mapM_cons_eq_ok_iff.2 ⟨y, ys, first, tail, rfl⟩⟩

theorem eq_ok_of_toOption {ε : Type} {x : Except ε α} {a : α} (found : x.toOption = some a) :
    x = .ok a := by
  cases x with
  | error e => cases found
  | ok b =>
    cases found
    rfl

theorem yields_fetch {xs : Array α} {i : Nat} {fault : Fault} (inside : i < xs.size) :
    Yields (fetch xs i fault) fun x => xs[i]? = some x :=
  ⟨xs[i], fetch_eq_ok_iff.2 (Array.getElem?_eq_getElem inside), Array.getElem?_eq_getElem inside⟩

/-- A fold over a list: what holds of the part gone through holds of all of it at the end. -/
theorem yields_foldlM {f : β → α → Except Fault β} {P : List α → β → Prop} {xs : List α} {init : β}
    (start : P [] init)
    (turn : ∀ done x b, x ∈ xs → P done b → Yields (f b x) (P (done ++ [x]))) :
    Yields (xs.foldlM f init) (P xs) := by
  suffices ∀ rest done b, rest ⊆ xs → P done b → Yields (rest.foldlM f b) (P (done ++ rest)) from
    this xs [] init (List.Subset.refl _) start
  intro rest
  induction rest with
  | nil =>
    intro done b _ holds
    exact .pure (by rwa [List.append_nil])
  | cons x rest ih =>
    intro done b inside holds
    rw [List.foldlM_cons]
    refine (turn done x b (inside List.mem_cons_self) holds).bind fun b' holds' => ?_
    have further := ih (done ++ [x]) b' (fun _ mem => inside (List.mem_cons_of_mem x mem)) holds'
    rwa [List.append_assoc] at further

/-- The same of a fold that has succeeded. -/
theorem foldlM_eq_ok {f : β → α → Except Fault β} {P : List α → β → Prop} {xs : List α}
    {init last : β} (start : P [] init)
    (turn : ∀ done x b b', P done b → f b x = .ok b' → P (done ++ [x]) b')
    (result : xs.foldlM f init = .ok last) : P xs last := by
  suffices ∀ rest done b, P done b → rest.foldlM f b = .ok last → P (done ++ rest) last from
    this xs [] init start result
  intro rest
  induction rest with
  | nil =>
    intro done b holds same
    cases same
    rwa [List.append_nil]
  | cons x rest ih =>
    intro done b holds result
    rw [List.foldlM_cons] at result
    obtain ⟨b', turned, result⟩ := bind_eq_ok_iff.1 result
    have further := ih (done ++ [x]) b' (turn done x b b' holds turned) result
    rwa [List.append_assoc] at further

/-- If both computations return, what they return is related. -/
def Matches (R : α → β → Prop) (x : Except Fault α) (y : Except Fault β) : Prop :=
  ∀ a b, x = .ok a → y = .ok b → R a b

namespace Matches

variable {γ δ : Type} {R : α → β → Prop} {S : γ → δ → Prop} {x : Except Fault α}
  {y : Except Fault β}

theorem pure {a : α} {b : β} (related : R a b) : Matches R (pure a) (pure b) := by
  intro a' b' first second
  cases first
  cases second
  exact related

theorem bind {f : α → Except Fault γ} {k : β → Except Fault δ} (first : Matches R x y)
    (rest : ∀ a b, R a b → Matches S (f a) (k b)) : Matches S (x >>= f) (y >>= k) := by
  intro c d left right
  obtain ⟨a, at_x, left⟩ := bind_eq_ok_iff.1 left
  obtain ⟨b, at_y, right⟩ := bind_eq_ok_iff.1 right
  exact rest a b (first a b at_x at_y) c d left right

/-- Both computations return, and nothing is said of what they return. -/
theorem both : Matches (fun a b => x = .ok a ∧ y = .ok b) x y := fun _ _ first second =>
  ⟨first, second⟩

/-- Both take the same step first. -/
theorem same {f : α → Except Fault γ} {k : α → Except Fault δ}
    (rest : ∀ a, x = .ok a → Matches S (f a) (k a)) : Matches S (x >>= f) (x >>= k) := by
  intro c d left right
  obtain ⟨a, at_x, left⟩ := bind_eq_ok_iff.1 left
  obtain ⟨b, at_x', right⟩ := bind_eq_ok_iff.1 right
  cases at_x.symm.trans at_x'
  exact rest a at_x c d left right

end Matches

end GrammarMachine
