import GrammarMachine.Proofs.Evaluation.Attempt

/-!
Evaluation as a sequence of moves: something is counted or reported, a node joins the graph, an
action is bound and attempted, an attribute is taken off the queue and attempted. Each move keeps a
state sound and lets its graph grow, so every sequence of moves does. A move carries what it adds to
the history of attributes.
-/

namespace GrammarMachine

namespace Node

variable {V : Type}

/-- The text of a token, or nothing. -/
def isLeaf : Node V → Bool
  | text _ _ _ => true
  | null => true
  | _ => false

theorem plain_of_isLeaf {node : Node V} (leaf : node.isLeaf = true) :
    node.isPending = false ∧ node.isLink = false ∧ node.waiters = [] := by
  cases node with
  | text => exact ⟨rfl, rfl, rfl⟩
  | null => exact ⟨rfl, rfl, rfl⟩
  | _ => cases leaf

/-- What the host was asked for. -/
def isUser : Node V → Bool
  | user _ _ _ _ => true
  | _ => false

theorem isPending_of_isUser {node : Node V} (user : node.isUser = true) :
    node.isPending = false := by
  cases node with
  | user => rfl
  | _ => cases user

theorem isUser_of_isLeaf {node : Node V} (leaf : node.isLeaf = true) : node.isUser = false := by
  cases node with
  | user => cases leaf
  | _ => rfl

end Node

namespace Graph

variable {V : Type} {g : Grammar} {graph : Graph V} {id : Nat} {node : Node V}

/-- A sound graph stays sound if a pending attribute changes into something that names nodes and
actions that are there. -/
theorem Sound.put {state : Pending} (sound : graph.Sound g)
    (here : graph.nodes[id]? = some (.pending state)) (linked : (graph.put id node).Linked)
    (bound : ∀ b w o, node = .pending ⟨some b, w, o⟩ →
      (∃ a, g.Defines b a) ∧ ∀ p ∈ b.params, p < graph.size)
    (waiters : ∀ n ∈ node.waiters, n < graph.size) : (graph.put id node).Sound g := by
  refine ⟨linked, ?_, ?_⟩
  · intro other b w o there
    rw [size_put]
    by_cases same : id = other
    · subst same
      rw [getElem?_put_self (lt_size here)] at there
      exact bound b w o (Option.some.inj there)
    · rw [getElem?_put_ne same] at there
      exact sound.bound there
  · intro n mem
    rw [size_put]
    have mem' := (parked_put here node).mem_iff.1 (List.mem_append_left _ mem)
    rcases List.mem_append.1 mem' with old | new
    · exact sound.parked n old
    · exact waiters n new

theorem Sound.put_waiters {state : Pending} {ws : List Nat} (sound : graph.Sound g)
    (here : graph.nodes[id]? = some (.pending state)) (inside : ∀ n ∈ ws, n < graph.size) :
    (graph.put id (.pending { state with waiters := state.waiters ++ ws })).Sound g := by
  refine sound.put here (sound.linked.put here (grows_put_waiters here) rfl) ?_ ?_
  · rintro b w o same
    cases state
    cases same
    exact sound.bound here
  · intro n mem
    rcases List.mem_append.1 mem with old | new
    · exact sound.parked n (mem_parked.2 ⟨id, state, here, old⟩)
    · exact inside n new

/-- A link to a node that is none, in the place of a pending attribute. -/
theorem Sound.put_link {state : Pending} {source : Nat} {found : Node V} (sound : graph.Sound g)
    (here : graph.nodes[id]? = some (.pending state)) (there : graph.nodes[source]? = some found)
    (plain : found.isLink = false) (different : id ≠ source) :
    (graph.put id (.link source)).Sound g :=
  sound.put here (sound.linked.put_link here there plain different) (fun _ _ _ same => nomatch same)
    fun _ mem => nomatch mem

theorem Sound.alloc (sound : graph.Sound g) (plain : node.isLink = false)
    (unbound : ∀ b w o, node ≠ .pending ⟨some b, w, o⟩) (waiters : node.waiters = []) :
    (graph.alloc node).2.Sound g := by
  refine ⟨sound.linked.alloc plain, ?_, ?_⟩
  · intro id b w o there
    rw [getElem?_alloc] at there
    split at there
    · exact absurd (Option.some.inj there) (unbound b w o)
    · obtain ⟨defined, params⟩ := sound.bound there
      rw [size_alloc]
      exact ⟨defined, fun p mem => Nat.lt_succ_of_lt (params p mem)⟩
  · intro n mem
    rw [parked_alloc waiters] at mem
    rw [size_alloc]
    exact Nat.lt_succ_of_lt (sound.parked n mem)

end Graph

namespace Evaluation

variable {σ V : Type} {g : Grammar} {h : Host σ V} {e e' e'' : Evaluation σ V} {target : Nat}

theorem Attempted.size (attempted : Attempted g h target e e') :
    e'.graph.size = e.graph.size := by
  cases attempted with
  | idle => rfl
  | self => rfl
  | join => simp only [Graph.size_put]
  | link => simp only [Graph.size_put]
  | park =>
    dsimp only
    split
    · rfl
    · rw [Graph.size_put]
  | settle => rw [Graph.size_put]

theorem Attempted.grows (attempted : Attempted g h target e e') : e.graph.Grows e'.graph := by
  cases attempted with
  | idle => exact .refl _
  | self => exact .refl _
  | join here _ _ _ _ different there =>
    rw [← Graph.getElem?_put_ne different] at there
    exact (Graph.grows_put here (.inr rfl)).trans (Graph.grows_put_waiters there)
  | link here => exact Graph.grows_put here (.inr rfl)
  | park _ _ _ _ there =>
    dsimp only
    split
    · exact .refl _
    · exact Graph.grows_put_waiters there
  | settle here _ _ _ _ computed => exact Graph.grows_put here (.inr computed.plain.1)

theorem Attempted.sound (attempted : Attempted g h target e e') (healthy : e.Sound g) :
    e'.Sound g := by
  have waiting : ∀ {b : Option Binding} {w : List Nat} {o : Origin},
      e.graph.nodes[target]? = some (.pending ⟨b, w, o⟩) → ∀ n ∈ w, n < e.graph.size :=
    fun here n mem => healthy.graph.parked n (Graph.mem_parked.2 ⟨target, _, here, mem⟩)
  have queue : ∀ {ws : List Nat}, (∀ n ∈ ws, n < e.graph.size) →
      ∀ n ∈ e.queue ++ ws, n < e.graph.size := by
    intro ws inside n mem
    rcases List.mem_append.1 mem with old | new
    · exact healthy.queue n old
    · exact inside n new
  have size := attempted.size
  constructor
  · cases attempted with
    | idle => exact healthy.graph
    | self => exact healthy.graph
    | join here _ _ _ _ different there =>
      have linked := healthy.graph.put_link here there rfl different
      rw [← Graph.getElem?_put_ne different] at there
      refine linked.put_waiters there ?_
      rw [Graph.size_put]
      exact waiting here
    | link here _ _ _ walk different there =>
      obtain ⟨found, same, plain⟩ := Graph.plain_of_follow walk
      cases there.symm.trans same
      exact healthy.graph.put_link here there plain different
    | park here _ _ _ there =>
      dsimp only
      split
      · exact healthy.graph
      · refine healthy.graph.put_waiters there fun n mem => ?_
        rw [List.mem_singleton.1 mem]
        exact Graph.lt_size here
    | settle here _ _ _ _ computed =>
      obtain ⟨settled, plain, waiters⟩ := computed.plain
      refine healthy.graph.put here (healthy.graph.linked.put here ?_ plain) ?_ ?_
      · exact Graph.grows_put here (.inr settled)
      · rintro b w o rfl
        cases settled
      · rw [waiters]
        exact fun n mem => nomatch mem
  · rw [size]
    cases attempted with
    | idle => exact healthy.queue
    | self => exact healthy.queue
    | join => exact healthy.queue
    | link here => exact queue (waiting here)
    | park => exact healthy.queue
    | settle here => exact queue (waiting here)

/-- The numbers that bound the attempts: an attribute is settled and its waiters are handed on, or
nothing is settled and `target` alone may join those who wait. -/
theorem Attempted.counts (attempted : Attempted g h target e e') :
    (e'.graph.pendingCount = e.graph.pendingCount ∧ e'.queue = e.queue ∧
      e'.graph.parked.length ≤ e.graph.parked.length + 1) ∨
    (e'.graph.pendingCount + 1 = e.graph.pendingCount ∧
      (e'.queue ++ e'.graph.parked).Perm (e.queue ++ e.graph.parked)) := by
  cases attempted with
  | idle => exact .inl ⟨rfl, rfl, Nat.le_succ _⟩
  | self => exact .inl ⟨rfl, rfl, Nat.le_succ _⟩
  | @join b w o a p source state here _ _ _ _ different there =>
    have handed := Graph.parked_put_link here different there
    have later : (e.graph.put target (.link source)).nodes[source]? = some (.pending state) := by
      rw [Graph.getElem?_put_ne different, there]
    have fewer := Graph.pendingCount_put here rfl (.link source)
    have same := Graph.pendingCount_put later rfl
      (.pending { state with waiters := state.waiters ++ w })
    refine .inr ⟨?_, handed.append_left _⟩
    rw [Nat.succ.inj same]
    exact fewer
  | @link b w o a p source known here =>
    have fewer := Graph.pendingCount_put here rfl (.link source)
    exact .inr ⟨fewer, Graph.parked_put_nil here rfl e.queue⟩
  | @park b w o a source state here _ _ _ there =>
    dsimp only
    split
    · exact .inl ⟨rfl, rfl, Nat.le_succ _⟩
    · have same := Graph.pendingCount_put there rfl
        (.pending { state with waiters := state.waiters ++ [target] })
      have joined := (Graph.parked_put_append there [target]).length_eq
      rw [List.length_append] at joined
      exact .inl ⟨Nat.succ.inj same, rfl, Nat.le_of_eq joined⟩
  | @settle e₁ b w o a node here _ _ _ _ computed =>
    obtain ⟨settled, _, waiters⟩ := computed.plain
    have fewer := Graph.pendingCount_put here rfl node
    rw [settled] at fewer
    exact .inr ⟨fewer, Graph.parked_put_nil here waiters e.queue⟩

/-- The state with a definition for a pending attribute. -/
def defined (target : Nat) (b : Binding) (w : List Nat) (o : Origin) (e : Evaluation σ V) :
    Evaluation σ V :=
  { e with graph := e.graph.put target (.pending ⟨some b, w, o⟩) }

/-- The state with the queue cut to `rest`, for an attempt at the attribute taken off it. -/
def taken (rest : List Nat) (e : Evaluation σ V) : Evaluation σ V :=
  { e with queue := rest, stats := { e.stats with replays := e.stats.replays + 1 } }

/-- The host is neither asked nor told, and only counts of actions change. -/
structure Quiet (e e' : Evaluation σ V) : Prop where
  control : e'.control = e.control
  host : e'.host = e.host
  stats : ∃ actions deferred replays, e'.stats = { e.stats with actions, deferred, replays }

/-- What a history tells of attributes. -/
inductive Event (σ V : Type) where
  | allocated (id : Nat) (origin : Origin)
  /-- An action became the definition of `target`. -/
  | bound (target : Nat) (binding : Binding)
  | attempted (target : Nat) (before after : Evaluation σ V)

/-- A move from one state to the next, with what it adds to the history. -/
inductive Move (g : Grammar) (h : Host σ V) :
    Evaluation σ V → List (Event σ V) → Evaluation σ V → Prop
  | note {e e' : Evaluation σ V} (same : e.Undisturbed e') : Move g h e [] e'
  | leaf {e : Evaluation σ V} {node : Node V} (leaf : node.isLeaf = true) :
      Move g h e [] { e with graph := (e.graph.alloc node).2 }
  | declare (e : Evaluation σ V) (o : Origin) :
      Move g h e [.allocated e.graph.size o]
        { e with graph := (e.graph.alloc (.pending ⟨none, [], o⟩)).2 }
  | define {e e' : Evaluation σ V} {target : Nat} {b : Binding} {a : SemanticAction} {w : List Nat}
      {o : Origin} (here : e.graph.nodes[target]? = some (.pending ⟨none, w, o⟩))
      (defines : g.Defines b a) (params : ∀ p ∈ b.params, p < e.graph.size)
      (attempted : Attempted g h target (e.defined target b w o) e') :
      Move g h e [.bound target b, .attempted target (e.defined target b w o) e'] e'
  | replay {e e' : Evaluation σ V} {id : Nat} {rest : List Nat} (queued : e.queue = id :: rest)
      (attempted : Attempted g h id (e.taken rest) e') :
      Move g h e [.attempted id (e.taken rest) e'] e'

theorem grows_defined {b : Binding} {w : List Nat} {o : Origin}
    (here : e.graph.nodes[target]? = some (.pending ⟨none, w, o⟩)) :
    e.graph.Grows (e.defined target b w o).graph :=
  Graph.grows_put here (.inl ⟨_, rfl, rfl, fun _ same => nomatch same⟩)

theorem Sound.defined {b : Binding} {a : SemanticAction} {w : List Nat} {o : Origin}
    (healthy : e.Sound g) (here : e.graph.nodes[target]? = some (.pending ⟨none, w, o⟩))
    (defines : g.Defines b a) (params : ∀ p ∈ b.params, p < e.graph.size) :
    (e.defined target b w o).Sound g := by
  constructor
  · refine healthy.graph.put here (healthy.graph.linked.put here (grows_defined here) rfl) ?_ ?_
    · rintro b' w' o' same
      cases same
      exact ⟨⟨a, defines⟩, params⟩
    · exact fun n mem => healthy.graph.parked n (Graph.mem_parked.2 ⟨target, _, here, mem⟩)
  · intro n mem
    rw [Evaluation.defined, Graph.size_put]
    exact healthy.queue n mem

theorem Sound.taken {id : Nat} {rest : List Nat} (healthy : e.Sound g)
    (queued : e.queue = id :: rest) : (e.taken rest).Sound g :=
  ⟨healthy.graph, fun n mem => healthy.queue n (queued ▸ List.mem_cons_of_mem id mem)⟩

theorem Move.grows {events : List (Event σ V)} (move : Move g h e events e') :
    e.graph.Grows e'.graph := by
  cases move with
  | note same => rw [same.graph]; exact .refl _
  | leaf => exact Graph.grows_alloc _ _
  | declare => exact Graph.grows_alloc _ _
  | define here _ _ attempted => exact (grows_defined here).trans attempted.grows
  | replay _ attempted => exact attempted.grows

theorem Sound.alloc {node : Node V} (healthy : e.Sound g) (plain : node.isLink = false)
    (unbound : ∀ b w o, node ≠ .pending ⟨some b, w, o⟩) (waiters : node.waiters = []) :
    Sound g { e with graph := (e.graph.alloc node).2 } := by
  refine ⟨healthy.graph.alloc plain unbound waiters, fun n mem => ?_⟩
  rw [Graph.size_alloc]
  exact Nat.lt_succ_of_lt (healthy.queue n mem)

theorem Undisturbed.sound (same : e.Undisturbed e') (healthy : e.Sound g) : e'.Sound g := by
  obtain ⟨graph, queue⟩ := healthy
  rw [← same.graph] at graph queue
  rw [← same.queue] at queue
  exact ⟨graph, queue⟩

theorem Move.sound {events : List (Event σ V)} (move : Move g h e events e')
    (healthy : e.Sound g) : e'.Sound g := by
  cases move with
  | note same => exact same.sound healthy
  | leaf leaf =>
    obtain ⟨settled, plain, waiters⟩ := Node.plain_of_isLeaf leaf
    refine healthy.alloc plain ?_ waiters
    rintro b w o rfl
    cases settled
  | declare => exact healthy.alloc rfl (fun _ _ _ same => nomatch same) rfl
  | define here defines params attempted =>
    exact attempted.sound (healthy.defined here defines params)
  | replay queued attempted => exact attempted.sound (healthy.taken queued)

/-- Moves one after the other. -/
inductive Runs (g : Grammar) (h : Host σ V) (e : Evaluation σ V) :
    List (Event σ V) → Evaluation σ V → Prop
  | refl : Runs g h e [] e
  | step {e' e'' : Evaluation σ V} {events more : List (Event σ V)}
      (run : Runs g h e events e') (move : Move g h e' more e'') : Runs g h e (events ++ more) e''

namespace Runs

variable {events more : List (Event σ V)}

theorem of_move (move : Move g h e events e') : Runs g h e events e' := .step .refl move

theorem trans (first : Runs g h e events e') (second : Runs g h e' more e'') :
    Runs g h e (events ++ more) e'' := by
  induction second with
  | refl => rwa [List.append_nil]
  | step _ move ih =>
    rw [← List.append_assoc]
    exact ih.step move

theorem sound (run : Runs g h e events e') (healthy : e.Sound g) : e'.Sound g := by
  induction run with
  | refl => exact healthy
  | step _ move ih => exact move.sound ih

/-- What every move keeps in sound states, every run keeps. -/
theorem keeps {P : List (Event σ V) → Evaluation σ V → Prop}
    (step : ∀ {events more : List (Event σ V)} {e e' : Evaluation σ V},
      Move g h e more e' → e.Sound g → P events e → P (events ++ more) e')
    (run : Runs g h e events e') (healthy : e.Sound g) (start : P [] e) : P events e' := by
  induction run with
  | refl => exact start
  | step run move ih => exact step move (run.sound healthy) ih

theorem grows (run : Runs g h e events e') : e.graph.Grows e'.graph := by
  induction run with
  | refl => exact .refl _
  | step _ move ih => exact ih.trans move.grows

end Runs

/-- Moves one after the other in which the history leaves nothing out: what it does not tell of is
no business of the host. -/
inductive Deeds (g : Grammar) (h : Host σ V) (e : Evaluation σ V) :
    List (Event σ V) → Evaluation σ V → Prop
  | refl : Deeds g h e [] e
  | step {e' e'' : Evaluation σ V} {events more : List (Event σ V)}
      (deeds : Deeds g h e events e') (move : Move g h e' more e'')
      (quiet : more = [] → e'.Quiet e'') : Deeds g h e (events ++ more) e''

namespace Deeds

variable {events more : List (Event σ V)}

theorem of_move (move : Move g h e events e') (quiet : events = [] → e.Quiet e') :
    Deeds g h e events e' := .step .refl move quiet

theorem trans (first : Deeds g h e events e') (second : Deeds g h e' more e'') :
    Deeds g h e (events ++ more) e'' := by
  induction second with
  | refl => rwa [List.append_nil]
  | step _ move quiet ih =>
    rw [← List.append_assoc]
    exact ih.step move quiet

theorem runs (deeds : Deeds g h e events e') : Runs g h e events e' := by
  induction deeds with
  | refl => exact .refl
  | step _ move _ ih => exact ih.step move

end Deeds

end Evaluation

end GrammarMachine
