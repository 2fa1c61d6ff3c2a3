import GrammarMachine.Proofs.Evaluation.Moves

/-!
Nobody is lost who waits. An attribute whose action is no copy and whose value is not known is in
the queue or with exactly one pending attribute, and there once: with the one behind its first
parameter that is pending. While an attribute is attempted it is in neither place, and the attempt
settles it or puts it where it belongs. Waiters move when their attribute is settled, when a copy
hands them to what it copies, and when a copy finds that known.
-/

namespace GrammarMachine

namespace Graph

variable {V : Type} {g : Grammar} {graph graph' : Graph V} {id n target : Nat} {b : Binding}
  {node : Node V}

/-- The attribute is pending and defined. -/
def DefinedBy (graph : Graph V) (n : Nat) (b : Binding) : Prop :=
  ∃ o, graph.PendingAs n (some b) o

/-- The attribute is pending, and its action has to wait for parameters. -/
def Waits (g : Grammar) (graph : Graph V) (n : Nat) : Prop :=
  ∃ b a, graph.DefinedBy n b ∧ g.action? b = some a ∧ a.isCopy = false

theorem DefinedBy.unique {b' : Binding} (first : graph.DefinedBy n b)
    (second : graph.DefinedBy n b') : b = b' := by
  obtain ⟨o, first⟩ := first
  obtain ⟨o', second⟩ := second
  exact Option.some.inj (first.unique second).1

theorem definedBy_put_settled (inside : target < graph.size) (settled : node.isPending = false) :
    (graph.put target node).DefinedBy n b ↔ graph.DefinedBy n b ∧ target ≠ n := by
  unfold DefinedBy
  simp only [pendingAs_put_settled inside settled, exists_and_right]

theorem definedBy_put_waiters {state : Pending} {ws : List Nat}
    (here : graph.nodes[target]? = some (.pending state)) :
    (graph.put target (.pending { state with waiters := ws })).DefinedBy n b ↔
      graph.DefinedBy n b := by
  unfold DefinedBy
  simp only [pendingAs_put_waiters here]

theorem definedBy_put_binding {w : List Nat} {o : Origin} {b' : Binding}
    (here : graph.nodes[target]? = some (.pending ⟨none, w, o⟩)) (other : some target ≠ some n) :
    (graph.put target (.pending ⟨some b', w, o⟩)).DefinedBy n b ↔ graph.DefinedBy n b := by
  have other : target ≠ n := fun same => other (congrArg some same)
  unfold DefinedBy
  simp [pendingAs_put_binding here, other]

theorem definedBy_alloc (unbound : ∀ b w o, node ≠ .pending ⟨some b, w, o⟩) :
    (graph.alloc node).2.DefinedBy n b ↔ graph.DefinedBy n b := by
  unfold DefinedBy
  simp only [pendingAs_alloc]
  refine exists_congr fun o => ⟨fun either => either.resolve_right ?_, .inl⟩
  rintro ⟨_, w, same⟩
  exact unbound b w o same

/-- Behind a node that is settled, a pending attribute is what it was. -/
theorem getElem?_of_put {m : Nat} {state : Pending} (here : target < graph.size)
    (settled : node.isPending = false)
    (found : (graph.put target node).nodes[m]? = some (.pending state)) :
    graph.nodes[m]? = some (.pending state) := by
  by_cases same : target = m
  · subst same
    rw [getElem?_put_self here] at found
    cases found
    cases settled
  · rwa [getElem?_put_ne same] at found

/-- Every waiter is with the attribute behind the first of its parameters that is pending. -/
def Placed (graph : Graph V) : Prop :=
  ∀ {m : Nat} {state : Pending} {n : Nat} {b : Binding}, graph.nodes[m]? = some (.pending state) →
    n ∈ state.waiters → graph.DefinedBy n b → graph.firstPending? b.params = .ok (some m)

/-- Copies of themselves are the only copies that stay pending, apart from those left out. -/
def Looped (g : Grammar) (left : Option Nat) (graph : Graph V) : Prop :=
  ∀ {n : Nat} {b : Binding} {a : SemanticAction}, graph.DefinedBy n b → g.action? b = some a →
    a.isCopy = true → left ≠ some n → ∃ p, b.params = [p] ∧ graph.representative p = .ok n

/-- Waiters stay in place as a graph grows, if those of each attribute come from one that stood, or
now stands, for it. -/
theorem placed_of_grows (sound : graph.Sound g) (linked : graph'.Linked)
    (grows : graph.Grows graph')
    (places : ∀ {m : Nat} {state : Pending} {n : Nat} {b : Binding},
      graph'.nodes[m]? = some (.pending state) → n ∈ state.waiters → graph'.DefinedBy n b →
      graph.DefinedBy n b ∧ ∃ m₀, graph.firstPending? b.params = .ok (some m₀) ∧
        graph'.representative m₀ = .ok m) : graph'.Placed := by
  intro m state n b here mem defined
  obtain ⟨⟨o, w, before⟩, m₀, first, moved⟩ := places here mem defined
  have pending : graph'.pendingAt m = true := pendingAt_eq here
  exact firstPending?_grows grows sound.linked linked moved pending (sound.bound before).2 first

theorem looped_of_grows {left left' : Option Nat} (looped : Looped g left graph)
    (linked : graph'.Linked) (grows : graph.Grows graph')
    (definitions : ∀ {n b}, graph'.DefinedBy n b → left' ≠ some n →
      graph.DefinedBy n b ∧ left ≠ some n) : Looped g left' graph' := by
  intro n b a defined action copy other
  obtain ⟨before, outside⟩ := definitions defined other
  obtain ⟨p, params, walk⟩ := looped before action copy outside
  obtain ⟨o, w, here⟩ := defined
  exact ⟨p, params, grows.representative linked walk here rfl⟩

/-- Where definitions are the same but for one attribute, so is waiting. -/
theorem waits_of_definitions (definitions : ∀ {b}, graph'.DefinedBy n b ↔
    graph.DefinedBy n b ∧ target ≠ n) : graph'.Waits g n ↔ graph.Waits g n ∧ target ≠ n := by
  constructor
  · rintro ⟨b, a, defined, facts⟩
    obtain ⟨before, other⟩ := definitions.1 defined
    exact ⟨⟨b, a, before, facts⟩, other⟩
  · rintro ⟨⟨b, a, before, facts⟩, other⟩
    exact ⟨b, a, definitions.2 ⟨before, other⟩, facts⟩

theorem waits_congr (definitions : ∀ {b}, graph'.DefinedBy n b ↔ graph.DefinedBy n b) :
    graph'.Waits g n ↔ graph.Waits g n := by
  unfold Waits
  simp only [definitions]

end Graph

namespace Evaluation

variable {σ V : Type} {g : Grammar} {h : Host σ V} {e e' : Evaluation σ V} {target : Nat}

/-- Everyone who waits is queued or parked once, in the right place, except for one attribute that
may be under way. -/
structure Tracked (g : Grammar) (left : Option Nat) (e : Evaluation σ V) : Prop where
  nodup : (e.queue ++ e.graph.parked).Nodup
  waits : ∀ {n}, n ∈ e.queue ++ e.graph.parked ↔ e.graph.Waits g n ∧ left ≠ some n
  placed : e.graph.Placed
  looped : e.graph.Looped g left
  counted : e.stats.deferred = e.stats.replays + (e.queue ++ e.graph.parked).length

/-- The attribute under way needs no place: it does not wait, and a copy is one of itself. -/
theorem Tracked.release (tracked : Tracked g (some target) e) (free : ¬e.graph.Waits g target)
    (loops : ∀ {b a}, e.graph.DefinedBy target b → g.action? b = some a → a.isCopy = true →
      ∃ p, b.params = [p] ∧ e.graph.representative p = .ok target) : Tracked g none e where
  nodup := tracked.nodup
  waits := by
    intro n
    rw [tracked.waits]
    refine ⟨fun both => ⟨both.1, nofun⟩, fun both => ⟨both.1, fun same => ?_⟩⟩
    cases same
    exact free both.1
  placed := tracked.placed
  looped := by
    intro n b a defined action copy _
    by_cases same : target = n
    · subst same
      exact loops defined action copy
    · exact tracked.looped defined action copy fun eq => same (Option.some.inj eq)
  counted := tracked.counted

/-- An attribute is settled, and all others stay where they are or move with what they wait for. -/
theorem Tracked.resolve (tracked : Tracked g (some target) e) (healthy : e.Sound g)
    (linked : e'.graph.Linked) (grows : e.graph.Grows e'.graph)
    (definitions : ∀ {n b}, e'.graph.DefinedBy n b ↔ e.graph.DefinedBy n b ∧ target ≠ n)
    (perm : (e'.queue ++ e'.graph.parked).Perm (e.queue ++ e.graph.parked))
    (deferred : e'.stats.deferred = e.stats.deferred) (replays : e'.stats.replays = e.stats.replays)
    (places : ∀ {m : Nat} {state : Pending} {n : Nat},
      e'.graph.nodes[m]? = some (.pending state) → n ∈ state.waiters →
      ∃ m₀ before, e.graph.nodes[m₀]? = some (.pending before) ∧ n ∈ before.waiters ∧
        e'.graph.representative m₀ = .ok m) : Tracked g none e' where
  nodup := perm.nodup_iff.2 tracked.nodup
  waits := by
    intro n
    rw [perm.mem_iff, tracked.waits, Graph.waits_of_definitions definitions]
    simp
  placed := by
    refine Graph.placed_of_grows healthy.graph linked grows fun here mem defined => ?_
    have known := (definitions.1 defined).1
    obtain ⟨m₀, before, there, waits, moved⟩ := places here mem
    exact ⟨known, m₀, tracked.placed there waits known, moved⟩
  looped := by
    refine Graph.looped_of_grows tracked.looped linked grows fun defined _ => ?_
    obtain ⟨before, other⟩ := definitions.1 defined
    exact ⟨before, fun same => other (Option.some.inj same)⟩
  counted := by
    rw [deferred, replays, perm.length_eq]
    exact tracked.counted

/-- An attribute that has to wait joins those who wait for its first pending parameter. -/
theorem Tracked.park (tracked : Tracked g (some target) e) (healthy : e.Sound g) {b : Binding}
    {a : SemanticAction} {source : Nat} {state : Pending} (defined : e.graph.DefinedBy target b)
    (action : g.action? b = some a) (copy : a.isCopy = false)
    (first : e.graph.firstPending? b.params = .ok (some source))
    (there : e.graph.nodes[source]? = some (.pending state))
    (absent : target ∉ e.queue ++ e.graph.parked) :
    Tracked g none { e with
      graph := e.graph.put source (.pending { state with waiters := state.waiters ++ [target] })
      stats := { e.stats with deferred := e.stats.deferred + 1 } } := by
  have inside : ∀ n ∈ [target], n < e.graph.size := by
    obtain ⟨o, w, here⟩ := defined
    simpa using Graph.lt_size here
  have linked := (healthy.graph.put_waiters there inside).linked
  have grows : e.graph.Grows
      (e.graph.put source (.pending { state with waiters := state.waiters ++ [target] })) :=
    Graph.grows_put_waiters there
  have definitions : ∀ {n b}, (e.graph.put source
      (.pending { state with waiters := state.waiters ++ [target] })).DefinedBy n b ↔
      e.graph.DefinedBy n b := Graph.definedBy_put_waiters there
  have perm : (e.queue ++ (e.graph.put source
      (.pending { state with waiters := state.waiters ++ [target] })).parked).Perm
      (target :: (e.queue ++ e.graph.parked)) := by
    refine ((Graph.parked_put_append there [target]).append_left e.queue).trans ?_
    rw [← List.append_assoc]
    exact List.perm_append_singleton target _
  refine ⟨perm.nodup_iff.2 (List.nodup_cons.2 ⟨absent, tracked.nodup⟩), ?_, ?_, ?_, ?_⟩
  · intro n
    rw [perm.mem_iff, List.mem_cons, tracked.waits, Graph.waits_congr definitions]
    by_cases same : target = n
    · subst same
      have waits : e.graph.Waits g target := ⟨b, a, defined, action, copy⟩
      simp [waits]
    · simp [same, Ne.symm same]
  · refine Graph.placed_of_grows healthy.graph linked grows ?_
    intro m state' n b' found mem defined'
    have before := definitions.1 defined'
    refine ⟨before, m, ?_, Graph.representative_of_not_link found rfl⟩
    by_cases same : source = m
    · subst same
      rw [Graph.getElem?_put_self (Graph.lt_size there)] at found
      cases found
      rcases List.mem_append.1 mem with old | new
      · exact tracked.placed there old before
      · rw [List.mem_singleton.1 new] at before
        cases before.unique defined
        exact first
    · rw [Graph.getElem?_put_ne same] at found
      exact tracked.placed found mem before
  · intro n b' a' defined' action' copy' _
    have before := definitions.1 defined'
    have other : some target ≠ some n := by
      rintro same
      cases same
      cases before.unique defined
      cases action.symm.trans action'
      rw [copy] at copy'
      cases copy'
    obtain ⟨p, params, walk⟩ := tracked.looped before action' copy' other
    obtain ⟨o, w, here⟩ := defined'
    exact ⟨p, params, grows.representative linked walk here rfl⟩
  · rw [perm.length_eq, List.length_cons, tracked.counted, Nat.add_assoc]

/-- An attempt settles its attribute or puts it in its place. -/
theorem Attempted.tracked (attempted : Attempted g h target e e') (healthy : e.Sound g)
    (tracked : Tracked g (some target) e) : Tracked g none e' := by
  have grows := attempted.grows
  have linked := (attempted.sound healthy).graph.linked
  have absent : target ∉ e.queue ++ e.graph.parked := fun mem => (tracked.waits.1 mem).2 rfl
  cases attempted with
  | idle other =>
    refine tracked.release (fun waits => ?_) fun defined _ _ => ?_
    · obtain ⟨b, a, ⟨o, w, here⟩, _⟩ := waits
      exact other b w o here
    · obtain ⟨o, w, here⟩ := defined
      exact absurd here (other _ w o)
  | @self b w o a p here defines copy param walk =>
    refine tracked.release (fun waits => ?_) fun defined _ _ => ?_
    · obtain ⟨b', a', defined, action, other⟩ := waits
      cases defined.unique ⟨o, w, here⟩
      cases action.symm.trans defines.action
      rw [copy] at other
      cases other
    · cases defined.unique ⟨o, w, here⟩
      exact ⟨p, param, walk⟩
  | @join b w o a p source state here defines copy param walk different there =>
    have later : (e.graph.put target (.link source)).nodes[source]? = some (.pending state) := by
      rw [Graph.getElem?_put_ne different, there]
    refine tracked.resolve healthy linked grows
      ((Graph.definedBy_put_waiters later).trans
        (Graph.definedBy_put_settled (Graph.lt_size here) rfl))
      ((Graph.parked_put_link here different there).append_left _) rfl rfl ?_
    intro m state' n found mem
    have stays := Graph.representative_of_not_link found rfl
    by_cases same : source = m
    · subst same
      rw [Graph.getElem?_put_self (Graph.lt_size later)] at found
      cases found
      rcases List.mem_append.1 mem with old | handed
      · exact ⟨source, state, there, old, stays⟩
      · refine ⟨target, _, here, handed, Graph.representative_of_link linked ?_ stays⟩
        rw [Graph.getElem?_put_ne (Ne.symm different), Graph.getElem?_put_self (Graph.lt_size here)]
    · rw [Graph.getElem?_put_ne same] at found
      exact ⟨m, state', Graph.getElem?_of_put (Graph.lt_size here) rfl found, mem, stays⟩
  | link here =>
    refine tracked.resolve healthy linked grows
      (Graph.definedBy_put_settled (Graph.lt_size here) rfl)
      (Graph.parked_put_nil here rfl e.queue) rfl rfl fun found mem => ?_
    exact ⟨_, _, Graph.getElem?_of_put (Graph.lt_size here) rfl found, mem,
      Graph.representative_of_not_link found rfl⟩
  | @park b w o a source state here defines copy first there =>
    have free : state.waiters.contains target = false := by
      have outside : target ∉ state.waiters := fun mem =>
        absent (List.mem_append_right _ (Graph.mem_parked.2 ⟨source, state, there, mem⟩))
      simpa using outside
    simp only [free, Bool.false_eq_true, if_false]
    exact tracked.park healthy ⟨o, w, here⟩ defines.action copy first there absent
  | settle here _ _ _ _ computed =>
    obtain ⟨settled, _, waiters⟩ := computed.plain
    obtain ⟨_, _, deferred, replays⟩ := computed.undisturbed
    refine tracked.resolve healthy linked grows
      (Graph.definedBy_put_settled (Graph.lt_size here) settled)
      (Graph.parked_put_nil here waiters e.queue) deferred replays fun found mem => ?_
    exact ⟨_, _, Graph.getElem?_of_put (Graph.lt_size here) settled found, mem,
      Graph.representative_of_not_link found rfl⟩

theorem Undisturbed.tracked {left : Option Nat} (same : e.Undisturbed e')
    (tracked : Tracked g left e) : Tracked g left e' := by
  obtain ⟨graph, queue, deferred, replays⟩ := same
  obtain ⟨nodup, waits, placed, looped, counted⟩ := tracked
  rw [← graph, ← queue] at nodup
  rw [← graph] at placed looped
  rw [← graph, ← queue, ← deferred, ← replays] at counted
  refine ⟨nodup, ?_, placed, looped, counted⟩
  intro n
  rw [graph, queue]
  exact waits

/-- A new node waits for nothing, and nobody waits for it. -/
theorem Tracked.alloc {node : Node V} (tracked : Tracked g none e) (healthy : e.Sound g)
    (plain : node.isLink = false) (unbound : ∀ b w o, node ≠ .pending ⟨some b, w, o⟩)
    (waiters : node.waiters = []) :
    Tracked g none { e with graph := (e.graph.alloc node).2 } := by
  have linked := healthy.graph.linked.alloc plain
  have grows := Graph.grows_alloc e.graph node
  have definitions : ∀ {n b}, (e.graph.alloc node).2.DefinedBy n b ↔ e.graph.DefinedBy n b :=
    Graph.definedBy_alloc unbound
  have parked := Graph.parked_alloc (g := e.graph) waiters
  refine ⟨?_, ?_, ?_, ?_, ?_⟩
  · rw [parked]
    exact tracked.nodup
  · intro n
    rw [parked, tracked.waits, Graph.waits_congr definitions]
  · refine Graph.placed_of_grows healthy.graph linked grows ?_
    intro m state n b found mem defined
    refine ⟨definitions.1 defined, m, ?_, Graph.representative_of_not_link found rfl⟩
    rw [Graph.getElem?_alloc] at found
    split at found
    · cases found
      rw [show state.waiters = [] from waiters] at mem
      cases mem
    · exact tracked.placed found mem (definitions.1 defined)
  · exact Graph.looped_of_grows tracked.looped linked grows fun defined other =>
      ⟨definitions.1 defined, other⟩
  · rw [parked]
    exact tracked.counted

/-- A new definition is under way: it is in no place so far. -/
theorem Tracked.define (tracked : Tracked g none e) (healthy : e.Sound g) {b : Binding}
    {a : SemanticAction} {w : List Nat} {o : Origin}
    (here : e.graph.nodes[target]? = some (.pending ⟨none, w, o⟩)) (defines : g.Defines b a)
    (params : ∀ p ∈ b.params, p < e.graph.size) :
    Tracked g (some target) (e.defined target b w o) := by
  have linked := (healthy.defined here defines params).graph.linked
  have grows := grows_defined (b := b) here
  have definitions : ∀ {n b'}, some target ≠ some n →
      ((e.defined target b w o).graph.DefinedBy n b' ↔ e.graph.DefinedBy n b') :=
    Graph.definedBy_put_binding here
  have unbound : ¬e.graph.Waits g target := by
    rintro ⟨b', a', ⟨o', w', found⟩, _⟩
    cases here.symm.trans found
  have parked : (e.defined target b w o).graph.parked.Perm e.graph.parked :=
    (List.perm_append_right_iff w).1 (Graph.parked_put here (.pending ⟨some b, w, o⟩))
  have perm := parked.append_left e.queue
  have defined_at : (e.defined target b w o).graph.nodes[target]? =
      some (.pending ⟨some b, w, o⟩) := Graph.getElem?_put_self (Graph.lt_size here)
  have waiting : ∀ {n}, n ∈ e.queue ++ (e.defined target b w o).graph.parked ↔
      (e.defined target b w o).graph.Waits g n ∧ some target ≠ some n := by
    intro n
    refine perm.mem_iff.trans (tracked.waits.trans ?_)
    constructor
    · rintro ⟨⟨b', a', defined, facts⟩, _⟩
      have other : some target ≠ some n := by
        rintro same
        cases same
        exact unbound ⟨b', a', defined, facts⟩
      exact ⟨⟨b', a', (definitions other).2 defined, facts⟩, other⟩
    · rintro ⟨⟨b', a', defined, facts⟩, other⟩
      exact ⟨⟨b', a', (definitions other).1 defined, facts⟩, nofun⟩
  refine ⟨perm.nodup_iff.2 tracked.nodup, waiting, ?_, ?_, ?_⟩
  · refine Graph.placed_of_grows healthy.graph linked grows ?_
    intro m state n b' found mem defined
    have parked := Graph.mem_parked.2 ⟨m, state, found, mem⟩
    have other := (waiting.1 (List.mem_append_right _ parked)).2
    have before := (definitions other).1 defined
    refine ⟨before, m, ?_, Graph.representative_of_not_link found rfl⟩
    by_cases same : target = m
    · subst same
      rw [defined_at] at found
      cases found
      exact tracked.placed here mem before
    · rw [Evaluation.defined, Graph.getElem?_put_ne same] at found
      exact tracked.placed found mem before
  · exact Graph.looped_of_grows tracked.looped linked grows fun defined other =>
      ⟨(definitions other).1 defined, nofun⟩
  · rw [show (e.defined target b w o).queue = e.queue from rfl, perm.length_eq]
    exact tracked.counted

/-- The first of the queue is under way. -/
theorem Tracked.take (tracked : Tracked g none e) {id : Nat} {rest : List Nat}
    (queued : e.queue = id :: rest) : Tracked g (some id) (e.taken rest) := by
  obtain ⟨nodup, waits, placed, looped, counted⟩ := tracked
  rw [queued, List.cons_append] at nodup counted
  obtain ⟨absent, others⟩ := List.nodup_cons.1 nodup
  refine ⟨others, ?_, placed, ?_, ?_⟩
  · intro n
    have whole := @waits n
    rw [queued, List.cons_append, List.mem_cons] at whole
    by_cases same : id = n
    · subst same
      exact ⟨fun mem => absurd mem absent, fun both => absurd rfl both.2⟩
    · simpa [taken, same, Ne.symm same] using whole
  · exact fun defined action copy _ => looped defined action copy nofun
  · rw [List.length_cons] at counted
    simp only [taken]
    omega

theorem Move.tracked {events : List (Event σ V)} (move : Move g h e events e') (healthy : e.Sound g)
    (tracked : Tracked g none e) : Tracked g none e' := by
  cases move with
  | note same => exact same.tracked tracked
  | leaf leaf =>
    obtain ⟨settled, plain, waiters⟩ := Node.plain_of_isLeaf leaf
    refine tracked.alloc healthy plain ?_ waiters
    rintro b w o rfl
    cases settled
  | declare => exact tracked.alloc healthy rfl nofun rfl
  | define here defines params attempted =>
    exact attempted.tracked (healthy.defined here defines params)
      (tracked.define healthy here defines params)
  | replay queued attempted => exact attempted.tracked (healthy.taken queued) (tracked.take queued)

theorem Runs.tracked {events : List (Event σ V)} (run : Runs g h e events e') (healthy : e.Sound g)
    (tracked : Tracked g none e) : Tracked g none e' :=
  run.keeps (P := fun _ e => Tracked g none e) Move.tracked healthy tracked

end Evaluation

end GrammarMachine
