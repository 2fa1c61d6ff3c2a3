import GrammarMachine.Proofs.Graph.Forest
import GrammarMachine.Proofs.Parse.Equations

/-!
The result graph over a whole parse. Its moments are the states between the steps and, within a
step, those before and after every attempt at an attribute. The graph is a forest of links with
terms above known nodes at each moment, and from one moment to the next it only grows: a node that
is not pending stays as it is, and a pending one stays pending until it is replaced for good.
-/

namespace GrammarMachine

namespace Evaluation

variable {σ V : Type} {g : Grammar} {h : Host σ V} {e e' e'' : Evaluation σ V}

/-- The states around an attempt. -/
def Event.states : Event σ V → List (Evaluation σ V)
  | .attempted _ before after => [before, after]
  | _ => []

/-- A sound state with a tree under all that is known. -/
structure Shaped (g : Grammar) (e : Evaluation σ V) : Prop where
  sound : e.Sound g
  grounded : e.graph.Grounded

/-- States passed on the way from one state to another, first one first. -/
structure Passes (g : Grammar) (e : Evaluation σ V) (states : List (Evaluation σ V))
    (e' : Evaluation σ V) : Prop where
  grows : e.graph.Grows e'.graph
  last : e'.Shaped g
  shaped : ∀ s ∈ states, s.Shaped g
  after : ∀ s ∈ states, e.graph.Grows s.graph
  before : ∀ s ∈ states, s.graph.Grows e'.graph
  ordered : states.Pairwise fun s s' => s.graph.Grows s'.graph

theorem passes_nil (grows : e.graph.Grows e'.graph) (last : e'.Shaped g) : Passes g e [] e' := by
  constructor <;> simp [*]

theorem passes_single (shaped : e.Shaped g) : Passes g e [e] e := by
  constructor <;> simp [Graph.Grows.refl, shaped]

theorem Passes.trans {states more : List (Evaluation σ V)} (first : Passes g e states e')
    (second : Passes g e' more e'') : Passes g e (states ++ more) e'' where
  grows := first.grows.trans second.grows
  last := second.last
  shaped := List.forall_mem_append.2 ⟨first.shaped, second.shaped⟩
  after := List.forall_mem_append.2
    ⟨first.after, fun s mem => first.grows.trans (second.after s mem)⟩
  before := List.forall_mem_append.2
    ⟨fun s mem => (first.before s mem).trans second.grows, second.before⟩
  ordered := List.pairwise_append.2 ⟨first.ordered, second.ordered, fun s mem s' mem' =>
    (first.before s mem).trans (second.after s' mem')⟩

/-- An attempt, from the state before it to the state after it. -/
theorem Attempted.passes {target : Nat} (attempted : Attempted g h target e e')
    (shaped : e.Shaped g) : Passes g e [e, e'] e' := by
  have later : e'.Shaped g :=
    ⟨attempted.sound shaped.sound, attempted.grounded shaped.sound shaped.grounded⟩
  exact ((passes_single shaped).trans (passes_nil attempted.grows later)).trans
    (passes_single later)

theorem Move.passes {events : List (Event σ V)} (move : Move g h e events e')
    (shaped : e.Shaped g) : Passes g e (events.flatMap Event.states) e' := by
  have quiet : Passes g e [] e' := passes_nil move.grows
    ⟨move.sound shaped.sound, move.grounded shaped.sound shaped.grounded⟩
  cases move with
  | note => exact quiet
  | leaf => exact quiet
  | declare => exact quiet
  | define here defines params attempted =>
    have sound := shaped.sound.defined here defines params
    have grounded := shaped.grounded.put_pending shaped.sound.graph.linked here
      (grows_defined here) sound.graph.linked
    exact (passes_nil (grows_defined here) ⟨sound, grounded⟩).trans
      (attempted.passes ⟨sound, grounded⟩)
  | replay queued attempted =>
    have ready : Shaped g (e.taken _) := ⟨shaped.sound.taken queued, shaped.grounded⟩
    have taken : Passes g e [] (e.taken _) := passes_nil (.refl _) ready
    exact taken.trans (attempted.passes ready)

theorem Runs.passes {events : List (Event σ V)} (run : Runs g h e events e')
    (shaped : e.Shaped g) : Passes g e (events.flatMap Event.states) e' := by
  induction run with
  | refl => exact passes_nil (.refl _) shaped
  | step _ move ih =>
    rw [List.flatMap_append]
    exact ih.trans (move.passes ih.last)

end Evaluation

open Evaluation

variable {σ V : Type} {g : Grammar} {h : Host σ V} {options : Options}

namespace Config

variable {c : Config σ V}

/-- The moments of a run of at most `n` steps. -/
def moments (g : Grammar) (h : Host σ V) (options : Options) :
    Nat → Config σ V → List (Config σ V)
  | 0, c => [c]
  | n + 1, c =>
    ((c.eval :: (c.history g h).flatMap Event.states).map fun e => { c with eval := e }) ++
      match c.advance g h options with
      | .ok (.more next) => moments g h options n next
      | .ok (.done _ last) => [last]
      | .error _ => []

/-- The frames on the stack name nodes of the graph. -/
def FramesInside (c : Config σ V) : Prop :=
  ∀ f ∈ c.stack, ∀ id ∈ f.attrs, id < c.eval.graph.size

theorem passes_moments (sound : g.Sound) (healthy : c.Sound g) (grounded : c.eval.graph.Grounded)
    (n : Nat) :
    Passes g c.eval ((c.moments g h options n).map Config.eval) (c.last g h options n).eval ∧
      ∀ m ∈ c.moments g h options n, m.FramesInside := by
  have shaped : c.eval.Shaped g := ⟨healthy.eval, grounded⟩
  induction n generalizing c with
  | zero => exact ⟨passes_single shaped, List.forall_mem_singleton.2 healthy.standing.attrs⟩
  | succ n ih =>
    obtain ⟨p, result, follows⟩ : Yields (c.advance g h options) _ := yields_advance sound healthy
    have step := (passes_single shaped).trans (follows.run.passes shaped)
    -- Within a step the frames are those it started with.
    have frames : ∀ m ∈ (c.eval :: (c.history g h).flatMap Event.states).map fun e =>
        { c with eval := e }, m.FramesInside := by
      intro m mem
      obtain ⟨e, passed, rfl⟩ := List.mem_map.1 mem
      exact (healthy.standing.grows (step.after e passed)).attrs
    unfold moments last
    rw [result, List.map_append, List.map_map]
    change Passes g c.eval (List.map id _ ++ _) _ ∧ _
    rw [List.map_id]
    cases p with
    | more next =>
      obtain ⟨rest, inside⟩ := ih follows.sound step.last.grounded step.last
      exact ⟨step.trans rest, List.forall_mem_append.2 ⟨frames, inside⟩⟩
    | done accepted last =>
      exact ⟨step.trans (passes_single step.last), List.forall_mem_append.2
        ⟨frames, List.forall_mem_singleton.2 follows.sound.standing.attrs⟩⟩

end Config

/-- The moments of a parse. -/
def parseMoments (control : Control) (g : Grammar) (h : Host σ V) (options : Options) (fuel : Nat)
    (source : Source) (host : σ) : Except Fault (List (Config σ V)) := do
  let c ← Config.start g h source control host
  return c.moments g h options fuel

/-- The root of an outcome is an attribute of the frame on top. -/
theorem Outcome.root_lt_size {accepted : Bool} {c : Config σ V} (frames : c.FramesInside)
    {root : Nat} (found : (Outcome.ofConfig accepted c).root = some root) :
    root < (Outcome.ofConfig accepted c).graph.size := by
  have size : (Outcome.ofConfig accepted c).graph.size = c.eval.graph.size := Graph.size_settle _
  rw [size]
  change (if accepted then c.stack.head?.bind fun top => top.attrs.head? else none) = _ at found
  split at found
  · obtain ⟨top, first, attr⟩ := Option.bind_eq_some_iff.1 found
    exact frames top (List.mem_of_head? first) root (List.mem_of_head? attr)
  · cases found

/-- The result graph stays a forest of links and of terms above known nodes, it only grows, and what
is returned holds nothing pending. -/
theorem graph_stays_writeOnce_forest (valid : g.check = .ok ()) (h : Host σ V) (control : Control)
    (options : Options) (fuel : Nat) (source : Source) (host : σ) :
    ∃ moments, parseMoments control g h options fuel source host = .ok moments ∧
      (∀ c ∈ moments, c.eval.graph.Forest ∧ (∀ n ∈ c.eval.queue, n < c.eval.graph.size) ∧
        c.FramesInside) ∧
      moments.Pairwise (fun c c' => c.eval.graph.Grows c'.eval.graph) ∧
      ∀ outcome, parseUnder control g h options fuel source host = .ok (some outcome) →
        (∀ c ∈ moments, c.eval.graph.Grows outcome.graph) ∧ outcome.graph.Forest ∧
        (∀ root, outcome.root = some root → root < outcome.graph.size) ∧
        (∀ n, outcome.graph.pendingAt n = false) ∧
        ∀ id, id < outcome.graph.size → ∃ s, outcome.graph.snapshot id = .ok s ∧ s.Complete := by
  have sound := Grammar.sound_of_check valid
  obtain ⟨c, begun, healthy, run⟩ := Config.yields_start sound h source control host
  have grounded := run.grounded (sound_initial g control host) Graph.grounded_empty
  obtain ⟨passes, frames⟩ :
      Passes g c.eval ((c.moments g h options fuel).map Config.eval) _ ∧ _ :=
    Config.passes_moments sound healthy grounded fuel
  refine ⟨c.moments g h options fuel, by rw [parseMoments, begun]; rfl, ?_, ?_, ?_⟩
  · intro m mem
    obtain ⟨sound, grounded⟩ := passes.shaped m.eval (List.mem_map_of_mem mem)
    exact ⟨sound.graph.forest grounded, sound.queue, frames m mem⟩
  · have ordered := passes.ordered
    rwa [List.pairwise_map] at ordered
  · intro outcome ended
    rw [parseUnder, begun, ok_bind] at ended
    obtain ⟨accepted, rfl⟩ := Config.outcome_of_run ended
    obtain ⟨healthy_last, _⟩ : (c.last g h options fuel).Sound g ∧ _ :=
      Config.last_follows sound healthy fuel
    obtain ⟨last, grounded⟩ := passes.last
    have settled := Graph.not_pendingAt_settle (c.last g h options fuel).eval.graph
    refine ⟨?_, Graph.forest_settle last.graph.linked grounded, ?_, settled, ?_⟩
    · intro m mem
      exact (passes.before m.eval (List.mem_map_of_mem mem)).trans (Graph.grows_settle _)
    · exact fun root => Outcome.root_lt_size healthy_last.standing.attrs
    · intro id inside
      have inside : id < (c.last g h options fuel).eval.graph.size := by
        rwa [← Graph.size_settle]
      obtain ⟨s, tree, snapshot⟩ :=
        Graph.exists_snapshot_settle grounded last.graph.linked inside
      exact ⟨s, snapshot, Graph.complete_of_tree settled tree⟩

section Example

open Samples.Summation

/-- Two numbers, the second of which is pending until its accumulator is defined by a later rule. -/
theorem summation_stays_writeOnce_forest : grammar.check = .ok () ∧ ∃ moments outcome,
    parseMoments .initial grammar host .default 20 (.ofText "1,2" false) (Machine.start false) =
      .ok moments ∧
    parseUnder .initial grammar host .default 20 (.ofText "1,2" false) (Machine.start false) =
      .ok (some outcome) ∧
    (moments.any fun c => 0 < c.eval.graph.pendingCount) = true ∧
    (∀ c ∈ moments, c.eval.graph.Forest ∧ c.eval.graph.Grows outcome.graph) ∧
    outcome.graph.Forest ∧ ∀ n, outcome.graph.pendingAt n = false := by
  have valid := check_grammar
  have ends : ((parseUnder .initial grammar host .default 20 (.ofText "1,2" false)
      (Machine.start false)).toOption.bind id).isSome = true := by decide +kernel
  have pending : (parseMoments .initial grammar host .default 20 (.ofText "1,2" false)
      (Machine.start false)).toOption.map (fun moments =>
        moments.any fun c => decide (0 < c.eval.graph.pendingCount)) = some true := by
    decide +kernel
  obtain ⟨outcome, found⟩ := Option.isSome_iff_exists.1 ends
  obtain ⟨result, whole, same⟩ := Option.bind_eq_some_iff.1 found
  cases same
  have ended := eq_ok_of_toOption whole
  obtain ⟨moments, eq, forest, _, final⟩ := graph_stays_writeOnce_forest valid host .initial
    .default 20 (.ofText "1,2" false) (Machine.start false)
  obtain ⟨grows, returned, _, settled, _⟩ := final outcome ended
  rw [eq] at pending
  exact ⟨valid, moments, outcome, eq, ended, Option.some.inj pending,
    fun c mem => ⟨(forest c mem).1, grows c mem⟩, returned, settled⟩

end Example

end GrammarMachine
