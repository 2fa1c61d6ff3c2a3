import GrammarMachine.Proofs.Evaluation.Solutions

/-!
What a host sees of the parameters of a call. Their texts and values can be read off their trees, so
that a host which looks at nothing else computes a function of the trees.
-/

namespace GrammarMachine

/-- What a host sees of a node that looks at texts and values alone. -/
def Node.view {V : Type} : Node V → Node V
  | .text content pos error => .text content pos error
  | .user function value pos error => .user function value pos error
  | _ => .null

/-- What such a host sees of a tree. -/
def Snapshot.view {V : Type} : Snapshot V → Node V
  | .text content pos error => .text content pos error
  | .user function value pos error => .user function value pos error
  | _ => .null

namespace Graph

variable {V : Type} {g : Graph V} {id : Nat} {s : Snapshot V}

/-- Where the last thing to do is to close a term, that term is built. -/
theorem term_of_assemble {f : UInt32} {arity pos : Nat} {error : Bool} {fuel : Nat}
    {work : List Work} {built : List (Snapshot V)}
    (ended : g.assemble fuel (work ++ [.close f arity pos error]) built = .ok s) :
    ∃ ss, s = .term f ss pos error := by
  induction fuel generalizing work built with
  | zero => cases work <;> cases ended
  | succ fuel ih =>
    cases work with
    | nil =>
      simp only [List.nil_append, assemble] at ended
      split at ended
      · cases ended
      · cases ended
        exact ⟨_, rfl⟩
    | cons item work =>
      cases item with
      | visit id =>
        rw [List.cons_append, assemble] at ended
        obtain ⟨node, _, ended⟩ := bind_eq_ok_iff.1 ended
        cases node with
        | term _ children =>
          simp only [← List.cons_append, ← List.append_assoc] at ended
          exact ih ended
        | link => cases ended
        | _ => exact ih ended
      | close =>
        rw [List.cons_append, assemble] at ended
        split at ended
        · cases ended
        · exact ih ended

/-- The node under a tree looks like the tree. -/
theorem view_of_snapshot (built : g.snapshot id = .ok s) :
    ∃ node, g.resolve id = .ok node ∧ node.view = s.view := by
  obtain ⟨fuel, load, ended⟩ := bind_eq_ok_iff.1 built
  unfold workload at load
  obtain ⟨node, found, load⟩ := bind_eq_ok_iff.1 load
  refine ⟨node, found, ?_⟩
  cases fuel with
  | zero => cases ended
  | succ fuel =>
    rw [assemble, found, ok_bind] at ended
    cases node with
    | term f cs pos x =>
      obtain ⟨ss, rfl⟩ := term_of_assemble ended
      rfl
    | link => cases ended
    | _ =>
      simp only [assemble, List.headD_cons, Except.ok.injEq] at ended
      rw [← ended]
      rfl

end Graph

namespace Call

variable {V : Type} {call call' : Call V} {vs : List (Snapshot V)}

/-- Calls that look the same to a host which looks at texts and values alone. -/
structure SameView (call call' : Call V) : Prop where
  function : call.function = call'.function
  pos : call.pos = call'.pos
  text? : call.text? = call'.text?
  value? : call.value? = call'.value?

theorem sameView_of_param? (function : call.function = call'.function)
    (pos : call.pos = call'.pos)
    (params : ∀ i, (call.param? i).map Node.view = (call'.param? i).map Node.view) :
    call.SameView call' := by
  refine ⟨function, pos, ?_, ?_⟩
  all_goals
    funext i
    have same := params i
    simp only [text?, value?]
    cases first : call.param? i <;> cases second : call'.param? i <;>
      simp only [first, second, Option.map_none, Option.map_some, reduceCtorEq,
        Option.some.injEq] at same
    · rfl
    · rename_i node node'
      cases node <;> cases node' <;> cases same <;> rfl

/-- A call of which nothing but the trees of its parameters is known. -/
def ofTrees (function : UInt32) (pos : Nat) (vs : List (Snapshot V)) : Call V :=
  ⟨function, pos, List.range vs.length, ⟨(vs.map Snapshot.view).toArray⟩⟩

theorem param?_ofTrees (function : UInt32) (pos : Nat) (vs : List (Snapshot V)) (i : Nat) :
    (ofTrees function pos vs).param? i = vs[i]?.map Snapshot.view := by
  cases here : vs[i]? with
  | none =>
    have outside := List.getElem?_eq_none_iff.1 here
    simp [param?, ofTrees, outside]
  | some v =>
    have inside := (List.getElem?_eq_some_iff.1 here).1
    have found : ((⟨(vs.map Snapshot.view).toArray⟩ : Graph V).nodes)[i]? = some v.view := by
      simp [here]
    have plain : v.view.isLink = false := by cases v <;> rfl
    have resolved : (⟨(vs.map Snapshot.view).toArray⟩ : Graph V).resolve i = .ok v.view := by
      rw [Graph.resolve, Graph.representative_of_not_link found plain]
      exact fetch_eq_ok_iff.2 found
    simp [param?, ofTrees, inside, resolved, Except.toOption]

theorem view_param? (trees : call.params.mapM call.graph.snapshot = .ok vs) (i : Nat) :
    (call.param? i).map Node.view = vs[i]?.map Snapshot.view := by
  obtain ⟨length, each⟩ := List.forall₂_iff_get.1 (mapM_eq_ok_iff.1 trees)
  by_cases inside : i < vs.length
  · have inside' : i < call.params.length := length ▸ inside
    obtain ⟨node, resolved, view⟩ := Graph.view_of_snapshot (each i inside' inside)
    rw [List.get_eq_getElem] at resolved view
    simp [param?, inside', inside, resolved, view, Except.toOption]
  · simp [param?, length, Nat.not_lt.1 inside]

/-- To such a host, a call is no more than the trees of its parameters. -/
theorem sameView_ofTrees (trees : call.params.mapM call.graph.snapshot = .ok vs) :
    call.SameView (ofTrees call.function call.pos vs) := by
  refine sameView_of_param? rfl rfl fun i => ?_
  rw [view_param? trees, param?_ofTrees, Option.map_map]
  congr 1
  funext v
  cases v <;> rfl

end Call

end GrammarMachine
