import GrammarMachine.Proofs.Evaluation.Grounding
import GrammarMachine.Proofs.Evaluation.Records
import GrammarMachine.Proofs.Parse.Safety

/-!
The equations that semantic actions stand for hold in the graph that a parse returns. A value
computed along the way is never touched again and what it was computed from stays as it was, so that
the equation of an attribute, true when it was settled, is true at the end; attributes that were not
settled are null.
-/

namespace GrammarMachine

open Evaluation

variable {σ V : Type} {g : Grammar} {h : Host σ V} {options : Options}

namespace Config

/-- What at most `n` steps add to the history. -/
def runHistory (g : Grammar) (h : Host σ V) (options : Options) :
    Nat → Config σ V → List (Event σ V)
  | 0, _ => []
  | n + 1, c =>
    c.history g h ++ telling (c.advance g h options) fun
      | .more next => runHistory g h options n next
      | .done _ _ => []

variable {c : Config σ V}

/-- A run keeps to its history. -/
theorem last_follows (sound : g.Sound) (healthy : c.Sound g) (n : Nat) :
    (c.last g h options n).Sound g ∧
      Runs g h c.eval (c.runHistory g h options n) (c.last g h options n).eval := by
  induction n generalizing c with
  | zero => exact ⟨healthy, .refl⟩
  | succ n ih =>
    obtain ⟨p, result, follows⟩ : Yields (c.advance g h options) _ := yields_advance sound healthy
    unfold last runHistory
    rw [result]
    cases p with
    | more next =>
      obtain ⟨later, run⟩ := ih follows.sound
      exact ⟨later, follows.run.trans run⟩
    | done accepted last =>
      refine ⟨follows.sound, ?_⟩
      rw [telling_ok, List.append_nil]
      exact follows.run

/-- The outcome is that of the last state. -/
theorem outcome_of_run {fuel : Nat} {outcome : Outcome σ V}
    (ended : c.run g h options fuel = .ok (some outcome)) :
    ∃ accepted, outcome = .ofConfig accepted (c.last g h options fuel) := by
  induction fuel generalizing c with
  | zero => cases ended
  | succ fuel ih =>
    unfold run at ended
    unfold last
    obtain ⟨p, result, rest⟩ := bind_eq_ok_iff.1 ended
    rw [result]
    cases p with
    | more next => exact ih rest
    | done accepted last =>
      cases rest
      exact ⟨accepted, rfl⟩

end Config

/-- The history of a parse. -/
def parseHistory (control : Control) (g : Grammar) (h : Host σ V) (options : Options) (fuel : Nat)
    (source : Source) (host : σ) : List (Event σ V) :=
  telling (Config.start g h source control host) fun c => c.runHistory g h options fuel

/-- The state in which a parse ends. -/
def parseLast (control : Control) (g : Grammar) (h : Host σ V) (options : Options) (fuel : Nat)
    (source : Source) (host : σ) : Except Fault (Config σ V) := do
  let c ← Config.start g h source control host
  return c.last g h options fuel

/-- What the answer of the host makes of an attribute. -/
def Node.ofResult (function : UInt32) (pos : Nat) : Except String (Produced V) → Node V
  | .ok produced => .user function (some produced.value) (produced.pos.getD pos) false
  | .error _ => .user function none pos true

/-- The equation of an attribute `n` that was declared at `o` and defined by action `a` with the
parameters of `b`, for a graph and the history behind it. -/
def Graph.Satisfies (h : Host σ V) (events : List (Event σ V)) (graph : Graph V) (n : Nat)
    (b : Binding) (a : SemanticAction) (o : Origin) : Prop :=
  if a.isCopy then
    ∃ p s, b.params[0]? = some p ∧ graph.snapshot n = .ok s ∧ graph.snapshot p = .ok s
  else
    ∃ flags, b.params.mapM graph.isError = .ok flags ∧
      if a.soft then
        graph.nodes[n]? = some (.term a.function b.params o.pos (flags.contains true))
      else
        -- The state in which the attribute was settled decides whether the host was asked.
        ∃ before after, .attempted n before after ∈ events ∧ before.graph.pendingAt n = true ∧
          after.graph.pendingAt n = false ∧
          if flags.contains true || before.locked then graph.nodes[n]? = some .null
          else
            events.filter (Event.calls n) = [.attempted n before after] ∧
              graph.nodes[n]? = some (.ofResult a.function o.pos
                (h.execute ⟨a.function, o.pos, b.params, before.graph⟩ before.control
                  before.host).1.result)

section Transport

variable {graph final : Graph V}

/-- Errors of known nodes are the same later on. -/
theorem Graph.mapM_isError_grows {ps : List Nat} {flags : List Bool}
    (known : ∀ p ∈ ps, graph.Known p) (grows : graph.Grows final) (linked : final.Linked)
    (errors : ps.mapM graph.isError = .ok flags) : ps.mapM final.isError = .ok flags := by
  induction ps generalizing flags with
  | nil => exact errors
  | cons p rest ih =>
    obtain ⟨first, others⟩ := List.forall_mem_cons.1 known
    obtain ⟨flag, tail, error, later, rfl⟩ := mapM_cons_eq_ok_iff.1 errors
    refine mapM_cons_eq_ok_iff.2 ⟨flag, tail, ?_, ih others later, rfl⟩
    rw [first.isError_grows grows linked, error]

/-- A link stands for what its source stood for. -/
theorem Graph.resolve_link {n p source : Nat} (grows : graph.Grows final) (linked : final.Linked)
    (walk : graph.representative p = .ok source) (link : final.nodes[n]? = some (.link source)) :
    final.resolve n = final.resolve p := by
  obtain ⟨_, there, _⟩ := plain_of_follow walk
  have source_inside := Nat.lt_of_lt_of_le (lt_size there) grows.size
  have p_inside := Nat.lt_of_lt_of_le (lt_size_of_representative walk) grows.size
  obtain ⟨r, rest, _⟩ := yields_representative linked source_inside
  unfold resolve
  rw [representative_of_link linked link rest,
    representative_through grows linked walk rest p_inside]

end Transport

/-- A computed node satisfies the equation of its action, if errors are the same later on. -/
theorem Evaluation.Computed.satisfies {events : List (Event σ V)} {n : Nat} {b : Binding}
    {a : SemanticAction} {o : Origin} {before after e₁ : Evaluation σ V} {node : Node V}
    {final : Graph V} (computed : Computed h a b.params o before node e₁)
    (copy : a.isCopy = false) (stats : after.stats = e₁.stats)
    (errors : ∀ {flags}, b.params.mapM before.graph.isError = .ok flags →
      b.params.mapM final.isError = .ok flags)
    (kept : final.nodes[n]? = some node) (mem : .attempted n before after ∈ events)
    (was : before.graph.pendingAt n = true) (settled : after.graph.pendingAt n = false)
    (calls : events.filter (Event.calls n) =
      [Event.attempted n before after].filter (Event.calls n)) :
    final.Satisfies h events n b a o := by
  unfold Graph.Satisfies
  rw [if_neg (Bool.eq_false_iff.1 copy)]
  -- A call is counted, so the attempt is the one that called.
  have called : e₁.stats.hardCalls = before.stats.hardCalls + 1 →
      events.filter (Event.calls n) = [.attempted n before after] := by
    intro one
    rw [calls]
    simp [Event.calls, stats, one]
  cases computed with
  | @term flags flagged soft =>
    refine ⟨flags, errors flagged, ?_⟩
    rw [if_pos soft]
    exact kept
  | @null flags flagged hard blocked =>
    refine ⟨flags, errors flagged, ?_⟩
    rw [if_neg (Bool.eq_false_iff.1 hard)]
    refine ⟨before, after, mem, was, settled, ?_⟩
    rw [if_pos blocked]
    exact kept
  | @value flags produced flagged hard free answer =>
    refine ⟨flags, errors flagged, ?_⟩
    rw [if_neg (Bool.eq_false_iff.1 hard)]
    refine ⟨before, after, mem, was, settled, ?_⟩
    rw [if_neg (Bool.eq_false_iff.1 free), answer]
    exact ⟨called rfl, kept⟩
  | @refusal flags reason flagged hard free answer =>
    refine ⟨flags, errors flagged, ?_⟩
    rw [if_neg (Bool.eq_false_iff.1 hard)]
    refine ⟨before, after, mem, was, settled, ?_⟩
    rw [if_neg (Bool.eq_false_iff.1 free), answer]
    exact ⟨called rfl, kept⟩

/-- The attempt that settled an attribute made its equation true, and it stays true. -/
theorem Evaluation.Resolution.satisfies {events : List (Event σ V)} {n : Nat} {b : Binding}
    {o : Origin} {before after e : Evaluation σ V}
    (resolution : Resolution g h events n b o before after) (later : after.graph.Grows e.graph)
    (healthy : e.Sound g) (grounded : e.graph.Grounded) :
    ∃ a, g.action? b = some a ∧ e.graph.settle.Satisfies h events n b a o := by
  obtain ⟨mem, pending, settled, sound, attempted, calls⟩ := resolution
  have was := pending.pendingAt
  obtain ⟨w, here⟩ := pending
  have linked := Graph.linked_settle healthy.graph.linked
  have after_final := later.trans (Graph.grows_settle e.graph)
  have before_final := attempted.grows.trans after_final
  obtain ⟨a, action, ⟨copy, p, source, param, walk, link⟩ |
    ⟨copy, known, node, e₁, computed, there, stats⟩⟩ := attempted.of_settled here settled
  · refine ⟨a, action, ?_⟩
    have inside : p < e.graph.size := by
      have before_inside := (sound.graph.bound here).2 p (by simp [param])
      exact Nat.lt_of_lt_of_le before_inside (attempted.grows.trans later).size
    obtain ⟨s, tree, snapshot⟩ := Graph.exists_snapshot_settle grounded healthy.graph.linked inside
    have same := Graph.resolve_link before_final linked walk (after_final.kept link rfl)
    rw [← Graph.tree_congr same] at tree
    rw [Graph.Satisfies, if_pos copy]
    exact ⟨p, s, by rw [param]; rfl, Graph.snapshot_of_tree tree, snapshot⟩
  · refine ⟨a, action, computed.satisfies copy stats ?_ ?_ mem was settled calls⟩
    · exact Graph.mapM_isError_grows known before_final linked
    · exact after_final.kept there computed.plain.1

theorem Evaluation.recorded_initial (g : Grammar) (h : Host σ V) (control : Control) (host : σ) :
    Recorded g h [] (initial control host : Evaluation σ V) where
  fresh _ := ⟨rfl, rfl, rfl⟩
  pending := by
    rintro n binding o ⟨w, here⟩
    exact nomatch Graph.lt_size here
  resolved bound := nomatch bound

theorem Graph.grounded_empty : (Graph.empty : Graph V).Grounded :=
  fun _ known => nomatch known.lt_size

/-- In the graph that a parse returns, every attribute that was settled satisfies the equation of
the first action bound to it, and every attribute that was not is null. -/
theorem settled_attributes_satisfy_equations (valid : g.check = .ok ()) {control : Control}
    {fuel : Nat} {source : Source} {host : σ} {outcome : Outcome σ V}
    (ended : parseUnder control g h options fuel source host = .ok (some outcome)) :
    ∃ last, parseLast control g h options fuel source host = .ok last ∧
      (∀ n, last.eval.graph.pendingAt n = true → outcome.graph.nodes[n]? = some .null) ∧
      ∀ n b, binding? (parseHistory control g h options fuel source host) n = some b →
        last.eval.graph.pendingAt n = false →
        ∃ a o, g.action? b = some a ∧
          origin? (parseHistory control g h options fuel source host) n = some o ∧
          outcome.graph.Satisfies h (parseHistory control g h options fuel source host)
            n b a o := by
  have sound := Grammar.sound_of_check valid
  obtain ⟨c, begun, healthy, first⟩ := Config.yields_start sound h source control host
  unfold parseUnder at ended
  rw [begun, ok_bind] at ended
  obtain ⟨accepted, rfl⟩ := Config.outcome_of_run ended
  obtain ⟨sound_last, run⟩ : (c.last g h options fuel).Sound g ∧ _ :=
    Config.last_follows sound healthy fuel
  have history : parseHistory control g h options fuel source host =
      c.runHistory g h options fuel := by
    rw [parseHistory, begun, telling_ok]
  rw [history]
  have run := first.trans run
  have start := sound_initial (V := V) g control host
  have recorded := run.recorded start (recorded_initial g h control host)
  have grounded := run.grounded start Graph.grounded_empty
  refine ⟨c.last g h options fuel, by rw [parseLast, begun]; rfl, ?_, ?_⟩
  · intro n pending
    obtain ⟨state, here⟩ := Graph.exists_pending_of_pendingAt pending
    exact Graph.settle_of_pending here
  · intro n b bound settled
    obtain ⟨o, before, after, origin, resolution, later⟩ := recorded.resolved bound settled
    obtain ⟨a, action, satisfies⟩ := resolution.satisfies later sound_last.eval grounded
    exact ⟨a, o, action, origin, satisfies⟩

section Example

open Samples.Summation

/-- The sum of two numbers: it is defined when the second is read and computed two rules later. -/
theorem summation_satisfies_equations : ∃ outcome last,
    parseUnder .initial grammar host .default 20 (.ofText "1,2" false) (Machine.start false) =
      .ok (some outcome) ∧
    parseLast .initial grammar host .default 20 (.ofText "1,2" false) (Machine.start false) =
      .ok last ∧
    last.eval.graph.pendingAt 3 = false ∧
    ∃ a o, grammar.action? ⟨2, 0, [2, 1]⟩ = some a ∧
      outcome.graph.Satisfies host (parseHistory .initial grammar host .default 20
        (.ofText "1,2" false) (Machine.start false)) 3 ⟨2, 0, [2, 1]⟩ a o := by
  have valid := check_grammar
  have ends : ((parseUnder .initial grammar host .default 20 (.ofText "1,2" false)
      (Machine.start false)).toOption.bind id).isSome = true := by decide +kernel
  have bound : binding? (parseHistory .initial grammar host .default 20 (.ofText "1,2" false)
      (Machine.start false)) 3 = some ⟨2, 0, [2, 1]⟩ := by decide +kernel
  have settled : ((parseLast .initial grammar host .default 20 (.ofText "1,2" false)
      (Machine.start false)).toOption.map fun c => c.eval.graph.pendingAt 3) = some false := by
    decide +kernel
  obtain ⟨outcome, found⟩ := Option.isSome_iff_exists.1 ends
  obtain ⟨result, whole, same⟩ := Option.bind_eq_some_iff.1 found
  cases same
  have ended := eq_ok_of_toOption whole
  obtain ⟨last, last_eq, _, equations⟩ := settled_attributes_satisfy_equations valid ended
  rw [last_eq] at settled
  have known := Option.some.inj settled
  obtain ⟨a, o, action, _, satisfies⟩ := equations 3 _ bound known
  exact ⟨outcome, last, ended, last_eq, known, a, o, action, satisfies⟩

end Example

end GrammarMachine
