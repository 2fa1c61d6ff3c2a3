import GrammarMachine.Proofs.Evaluation.Moves

/-!
What a history proves about the state it leads to. For every attribute it holds the place it was
declared for and the action that became its definition, of which there is one at most; for every
attribute that is settled it holds the attempt that did so, and no other attempt at it called the
host.
-/

namespace GrammarMachine.Evaluation

variable {σ V : Type}

/-- Where an attribute was declared. -/
def origin? (events : List (Event σ V)) (n : Nat) : Option Origin :=
  events.findSome? fun
    | .allocated id origin => if id = n then some origin else none
    | _ => none

/-- The first action that was bound to an attribute. -/
def binding? (events : List (Event σ V)) (n : Nat) : Option Binding :=
  events.findSome? fun
    | .bound target binding => if target = n then some binding else none
    | _ => none

/-- An attempt at `n` in which the host was called. -/
def Event.calls (n : Nat) : Event σ V → Bool
  | .attempted target before after =>
    target == n && before.stats.hardCalls != after.stats.hardCalls
  | _ => false

variable {g : Grammar} {h : Host σ V} {e e' : Evaluation σ V} {target n : Nat} {b : Binding}
  {events more : List (Event σ V)}

theorem origin?_append (events more : List (Event σ V)) (n : Nat) :
    origin? (events ++ more) n = (origin? events n).or (origin? more n) :=
  List.findSome?_append

theorem binding?_append (events more : List (Event σ V)) (n : Nat) :
    binding? (events ++ more) n = (binding? events n).or (binding? more n) :=
  List.findSome?_append

theorem origin?_allocated (id : Nat) (o : Origin) (n : Nat) :
    origin? [(.allocated id o : Event σ V)] n = if id = n then some o else none := by
  unfold origin?
  by_cases same : id = n <;> simp [same]

theorem binding?_bound (target : Nat) (b : Binding) (n : Nat) :
    binding? [(.bound target b : Event σ V)] n = if target = n then some b else none := by
  unfold binding?
  by_cases same : target = n <;> simp [same]

section Attempts

variable {binding : Option Binding} {o : Origin}

/-- An attempt gives no pending attribute another definition. -/
theorem Attempted.pendingAs (attempted : Attempted g h target e e')
    (pending : e'.graph.PendingAs n binding o) : e.graph.PendingAs n binding o := by
  cases attempted with
  | idle => exact pending
  | self => exact pending
  | @join b w o a p source state here _ _ _ _ different there =>
    rw [← Graph.getElem?_put_ne different] at there
    have between := (Graph.pendingAs_put_waiters there).1 pending
    exact ((Graph.pendingAs_put_settled (Graph.lt_size here) rfl).1 between).1
  | link here => exact ((Graph.pendingAs_put_settled (Graph.lt_size here) rfl).1 pending).1
  | park _ _ _ _ there =>
    dsimp only at pending
    split at pending
    · exact pending
    · exact (Graph.pendingAs_put_waiters there).1 pending
  | settle here _ _ _ _ computed =>
    exact ((Graph.pendingAs_put_settled (Graph.lt_size here) computed.plain.1).1 pending).1

/-- Only the attempted attribute can be settled. -/
theorem Attempted.pendingAs_of_ne (attempted : Attempted g h target e e') (other : target ≠ n)
    (pending : e.graph.PendingAs n binding o) : e'.graph.PendingAs n binding o := by
  cases attempted with
  | idle => exact pending
  | self => exact pending
  | @join b w o a p source state here _ _ _ _ different there =>
    rw [← Graph.getElem?_put_ne different] at there
    exact (Graph.pendingAs_put_waiters there).2
      ((Graph.pendingAs_put_settled (Graph.lt_size here) rfl).2 ⟨pending, other⟩)
  | link here => exact (Graph.pendingAs_put_settled (Graph.lt_size here) rfl).2 ⟨pending, other⟩
  | park _ _ _ _ there =>
    dsimp only
    split
    · exact pending
    · exact (Graph.pendingAs_put_waiters there).2 pending
  | settle here _ _ _ _ computed =>
    exact (Graph.pendingAs_put_settled (Graph.lt_size here) computed.plain.1).2 ⟨pending, other⟩

/-- What the host computed stays, and nothing becomes what the host computed but the attempted
attribute. -/
theorem Attempted.user_iff (attempted : Attempted g h target e e') (other : target ≠ n)
    {user : Node V} (computed : user.isUser = true) :
    e'.graph.nodes[n]? = some user ↔ e.graph.nodes[n]? = some user := by
  have settled := Node.isPending_of_isUser computed
  constructor
  · intro there
    have inside := attempted.size ▸ Graph.lt_size there
    obtain ⟨node, here⟩ := Graph.exists_node inside
    cases pending : node.isPending with
    | true =>
      obtain ⟨state, rfl⟩ := Node.eq_pending_of_isPending pending
      obtain ⟨w, still⟩ := attempted.pendingAs_of_ne other ⟨state.waiters, here⟩
      cases still.symm.trans there
      cases settled
    | false => exact here.trans ((attempted.grows.kept here pending).symm.trans there)
  · exact fun here => attempted.grows.kept here settled

/-- Only an attempt that settles its attribute calls the host. -/
theorem Attempted.hardCalls_eq (attempted : Attempted g h target e e')
    (other : e'.graph.pendingAt target = true ∨ e.graph.pendingAt target = false) :
    e'.stats.hardCalls = e.stats.hardCalls := by
  cases attempted with
  | settle here _ _ _ _ computed =>
    rcases other with pending | settled
    · rw [Graph.pendingAt_eq (Graph.getElem?_put_self (Graph.lt_size here)),
        computed.plain.1] at pending
      cases pending
    · rw [Graph.pendingAt_eq here] at settled
      cases settled
  | _ => rfl

theorem Attempted.not_calls (attempted : Attempted g h target e e')
    (other : target = n → e'.graph.pendingAt target = true ∨ e.graph.pendingAt target = false) :
    [Event.attempted target e e'].filter (Event.calls n) = [] := by
  refine List.filter_eq_nil_iff.2 fun event mem => ?_
  rw [List.mem_singleton.1 mem, Event.calls]
  by_cases same : target = n
  · simp [attempted.hardCalls_eq (other same)]
  · simp [same]

/-- An attempt that settles its attribute made it a link, or computed a node from parameters that
were all known. -/
theorem Attempted.of_settled (attempted : Attempted g h n e e') {w : List Nat}
    (here : e.graph.nodes[n]? = some (.pending ⟨some b, w, o⟩))
    (settled : e'.graph.pendingAt n = false) :
    ∃ a, g.action? b = some a ∧
      ((a.isCopy = true ∧ ∃ p source, b.params = [p] ∧ e.graph.representative p = .ok source ∧
        e'.graph.nodes[n]? = some (.link source)) ∨
      (a.isCopy = false ∧ (∀ p ∈ b.params, e.graph.Known p) ∧
        ∃ node e₁, Computed h a b.params o e node e₁ ∧ e'.graph.nodes[n]? = some node ∧
          e'.stats = e₁.stats)) := by
  cases attempted with
  | idle other => exact absurd here (other b w o)
  | self =>
    rw [Graph.pendingAt_eq here] at settled
    cases settled
  | @join _ _ _ a p source _ here' defines copy param walk different =>
    cases here.symm.trans here'
    refine ⟨a, defines.action, .inl ⟨copy, p, source, param, walk, ?_⟩⟩
    rw [Graph.getElem?_put_ne (Ne.symm different), Graph.getElem?_put_self (Graph.lt_size here)]
  | @link _ _ _ a p source _ here' defines copy param walk =>
    cases here.symm.trans here'
    exact ⟨a, defines.action, .inl ⟨copy, p, source, param, walk,
      Graph.getElem?_put_self (Graph.lt_size here)⟩⟩
  | park _ _ _ _ there =>
    dsimp only at settled
    split at settled
    · rw [Graph.pendingAt_eq here] at settled
      cases settled
    · rw [((Graph.pendingAs_put_waiters there).2 ⟨w, here⟩).pendingAt] at settled
      cases settled
  | @settle e₁ _ _ _ a node here' defines copy _ known computed =>
    cases here.symm.trans here'
    exact ⟨a, defines.action, .inr ⟨copy, known, node, e₁, computed,
      Graph.getElem?_put_self (Graph.lt_size here), rfl⟩⟩

end Attempts

/-- The attempt that settled an attribute. No other one called the host for it. -/
structure Resolution (g : Grammar) (h : Host σ V) (events : List (Event σ V)) (n : Nat)
    (b : Binding) (o : Origin) (before after : Evaluation σ V) : Prop where
  mem : .attempted n before after ∈ events
  pending : before.graph.PendingAs n (some b) o
  settled : after.graph.pendingAt n = false
  sound : before.Sound g
  attempted : Attempted g h n before after
  calls : events.filter (Event.calls n) =
    [Event.attempted n before after].filter (Event.calls n)

/-- What a history tells of the state it leads to. -/
structure Recorded (g : Grammar) (h : Host σ V) (events : List (Event σ V)) (e : Evaluation σ V) :
    Prop where
  fresh : ∀ {n}, e.graph.size ≤ n →
    origin? events n = none ∧ binding? events n = none ∧ events.filter (Event.calls n) = []
  pending : ∀ {n binding o}, e.graph.PendingAs n binding o →
    origin? events n = some o ∧ binding? events n = binding ∧ events.filter (Event.calls n) = []
  resolved : ∀ {n b}, binding? events n = some b → e.graph.pendingAt n = false →
    ∃ o before after, origin? events n = some o ∧ Resolution g h events n b o before after ∧
      after.graph.Grows e.graph

namespace Recorded

/-- A resolution is not undone by events that call nobody for its attribute. -/
theorem extend {o : Origin} {before after : Evaluation σ V}
    (resolution : Resolution g h events n b o before after)
    (quiet : more.filter (Event.calls n) = []) :
    Resolution g h (events ++ more) n b o before after where
  mem := List.mem_append_left _ resolution.mem
  pending := resolution.pending
  settled := resolution.settled
  sound := resolution.sound
  attempted := resolution.attempted
  calls := by rw [List.filter_append, quiet, List.append_nil, resolution.calls]

/-- What was settled stays settled by the same attempt. -/
theorem resolved_append (recorded : Recorded g h events e) (grows : e.graph.Grows e'.graph)
    (quiet : more.filter (Event.calls n) = []) (bound : binding? events n = some b)
    (settled : e.graph.pendingAt n = false) :
    ∃ o before after, origin? (events ++ more) n = some o ∧
      Resolution g h (events ++ more) n b o before after ∧ after.graph.Grows e'.graph := by
  obtain ⟨o, before, after, origin, resolution, earlier⟩ := recorded.resolved bound settled
  refine ⟨o, before, after, ?_, extend resolution quiet, earlier.trans grows⟩
  rw [origin?_append, origin]
  rfl

theorem attempt (recorded : Recorded g h events e) (healthy : e.Sound g)
    (attempted : Attempted g h target e e') :
    Recorded g h (events ++ [.attempted target e e']) e' := by
  have origins : ∀ n, origin? (events ++ [.attempted target e e']) n = origin? events n := by
    intro n
    rw [origin?_append]
    exact Option.or_none
  have bindings : ∀ n, binding? (events ++ [.attempted target e e']) n = binding? events n := by
    intro n
    rw [binding?_append]
    exact Option.or_none
  refine ⟨?_, ?_, ?_⟩
  · intro n beyond
    rw [attempted.size] at beyond
    obtain ⟨origin, binding, calls⟩ := recorded.fresh beyond
    refine ⟨(origins n).trans origin, (bindings n).trans binding, ?_⟩
    rw [List.filter_append, calls, List.nil_append]
    refine attempted.not_calls ?_
    rintro rfl
    exact .inr (Graph.pendingAt_of_size_le beyond)
  · intro n binding o pending
    obtain ⟨origin, bound, calls⟩ := recorded.pending (attempted.pendingAs pending)
    refine ⟨(origins n).trans origin, (bindings n).trans bound, ?_⟩
    rw [List.filter_append, calls, List.nil_append]
    refine attempted.not_calls ?_
    rintro rfl
    exact .inl pending.pendingAt
  · intro n b bound settled
    rw [bindings] at bound
    cases was : e.graph.pendingAt n with
    | false =>
      have quiet := attempted.not_calls (n := n) fun same => .inr (same ▸ was)
      exact recorded.resolved_append attempted.grows quiet bound was
    | true =>
      -- The attribute was pending up to now, so it is the one attempted.
      obtain ⟨⟨binding, w, o⟩, here⟩ := Graph.exists_pending_of_pendingAt was
      obtain ⟨origin, same, calls⟩ := recorded.pending ⟨w, here⟩
      cases bound.symm.trans same
      have now : target = n := by
        refine Classical.byContradiction fun other => ?_
        have still := (attempted.pendingAs_of_ne other ⟨w, here⟩).pendingAt
        rw [settled] at still
        cases still
      subst now
      refine ⟨o, e, e', (origins target).trans origin, ⟨by simp, ⟨w, here⟩, settled, healthy,
        attempted, ?_⟩, .refl _⟩
      rw [List.filter_append, calls, List.nil_append]

/-- Nothing about attributes changes while their pending ones are the same. -/
theorem congr (recorded : Recorded g h events e) (grows : e.graph.Grows e'.graph)
    (pending : ∀ {n binding o}, e'.graph.PendingAs n binding o ↔ e.graph.PendingAs n binding o) :
    Recorded g h events e' where
  fresh beyond := recorded.fresh (Nat.le_trans grows.size beyond)
  pending found := recorded.pending (pending.1 found)
  resolved := by
    intro n b bound settled
    have before := Graph.pendingAt_eq_false_of_pendingAs settled pending.2
    have quiet : ([] : List (Event σ V)).filter (Event.calls n) = [] := rfl
    simpa only [List.append_nil] using recorded.resolved_append grows quiet bound before

theorem declare (recorded : Recorded g h events e) (o : Origin) :
    Recorded g h (events ++ [.allocated e.graph.size o])
      { e with graph := (e.graph.alloc (.pending ⟨none, [], o⟩)).2 } := by
  have bindings : ∀ n, binding? (events ++ [.allocated e.graph.size o]) n = binding? events n := by
    intro n
    rw [binding?_append]
    exact Option.or_none
  have calls : ∀ n, (events ++ [Event.allocated e.graph.size o]).filter (Event.calls n) =
      events.filter (Event.calls n) := by
    intro n
    rw [List.filter_append]
    exact List.append_nil _
  refine ⟨?_, ?_, ?_⟩
  · intro n beyond
    rw [Graph.size_alloc] at beyond
    obtain ⟨origin, bound, quiet⟩ := recorded.fresh (Nat.le_of_succ_le beyond)
    refine ⟨?_, (bindings n).trans bound, (calls n).trans quiet⟩
    rw [origin?_append, origin, origin?_allocated, if_neg (Nat.ne_of_lt beyond)]
    rfl
  · intro n binding o' pending
    rw [bindings, calls]
    rcases Graph.pendingAs_alloc.1 pending with old | ⟨rfl, w, same⟩
    · obtain ⟨origin, rest⟩ := recorded.pending old
      refine ⟨?_, rest⟩
      rw [origin?_append, origin]
      rfl
    · cases same
      obtain ⟨origin, rest⟩ := recorded.fresh (Nat.le_refl _)
      refine ⟨?_, rest⟩
      rw [origin?_append, origin, origin?_allocated, if_pos rfl]
      rfl
  · intro n b bound settled
    rw [bindings] at bound
    refine recorded.resolved_append (Graph.grows_alloc _ _) rfl bound ?_
    refine Graph.pendingAt_eq_false_of_pendingAs settled fun old => ?_
    exact Graph.pendingAs_alloc.2 (.inl old)

theorem bind (recorded : Recorded g h events e) {w : List Nat} {o : Origin}
    (here : e.graph.nodes[target]? = some (.pending ⟨none, w, o⟩)) :
    Recorded g h (events ++ [.bound target b]) (e.defined target b w o) := by
  have origins : ∀ n, origin? (events ++ [.bound target b]) n = origin? events n := by
    intro n
    rw [origin?_append]
    exact Option.or_none
  have calls : ∀ n, (events ++ [Event.bound target b]).filter (Event.calls n) =
      events.filter (Event.calls n) := by
    intro n
    rw [List.filter_append]
    exact List.append_nil _
  have bindings : ∀ n, target ≠ n →
      binding? (events ++ [.bound target b]) n = binding? events n := by
    intro n other
    rw [binding?_append, binding?_bound, if_neg other]
    exact Option.or_none
  refine ⟨?_, ?_, ?_⟩
  · intro n beyond
    rw [defined, Graph.size_put] at beyond
    obtain ⟨origin, bound, quiet⟩ := recorded.fresh beyond
    have other : target ≠ n := Nat.ne_of_lt (Nat.lt_of_lt_of_le (Graph.lt_size here) beyond)
    exact ⟨(origins n).trans origin, (bindings n other).trans bound, (calls n).trans quiet⟩
  · intro n binding o' pending
    rw [origins, calls]
    rcases (Graph.pendingAs_put_binding here).1 pending with ⟨old, other⟩ | ⟨rfl, rfl, rfl⟩
    · rw [bindings n other]
      exact recorded.pending old
    · obtain ⟨origin, unbound, quiet⟩ := recorded.pending ⟨w, here⟩
      refine ⟨origin, ?_, quiet⟩
      rw [binding?_append, unbound, binding?_bound, if_pos rfl]
      rfl
  · intro n b' bound settled
    have other : target ≠ n := by
      rintro rfl
      rw [defined, Graph.pendingAt_eq (Graph.getElem?_put_self (Graph.lt_size here))] at settled
      cases settled
    rw [bindings n other] at bound
    refine recorded.resolved_append (grows_defined here) rfl bound ?_
    exact Graph.pendingAt_eq_false_of_pendingAs settled fun old =>
      (Graph.pendingAs_put_binding here).2 (.inl ⟨old, other⟩)

end Recorded

theorem Move.recorded (move : Move g h e more e') (healthy : e.Sound g)
    (recorded : Recorded g h events e) : Recorded g h (events ++ more) e' := by
  have grows := move.grows
  cases move with
  | note same =>
    rw [List.append_nil]
    exact recorded.congr grows (by rw [same.graph])
  | leaf leaf =>
    rw [List.append_nil]
    refine recorded.congr grows (Graph.pendingAs_alloc.trans ?_)
    refine ⟨fun either => either.resolve_right ?_, .inl⟩
    rintro ⟨_, w, rfl⟩
    cases leaf
  | declare => exact recorded.declare _
  | define here defines params attempted =>
    have bound := (recorded.bind here).attempt (healthy.defined here defines params) attempted
    rwa [List.append_assoc] at bound
  | @replay _ id rest queued attempted =>
    have same : Recorded g h events (e.taken rest) := recorded.congr (.refl _) .rfl
    exact same.attempt (healthy.taken queued) attempted

theorem Runs.recorded (run : Runs g h e events e') (healthy : e.Sound g)
    (start : Recorded g h [] e) : Recorded g h events e' :=
  run.keeps Move.recorded healthy start

end GrammarMachine.Evaluation
