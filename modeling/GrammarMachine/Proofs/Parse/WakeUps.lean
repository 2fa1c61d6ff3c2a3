import GrammarMachine.Proofs.Acyclic
import GrammarMachine.Proofs.Evaluation.Tracking
import GrammarMachine.Proofs.Parse.Safety

/-!
Wake-ups between two steps of a parse: the queue is empty, everyone who waits is with the one
attribute that holds it up, once and nowhere else, and the counts agree. Without a circle of
definitions nobody waits at all.
-/

namespace GrammarMachine

open Evaluation

namespace Graph

variable {V : Type} {graph : Graph V}

/-- How many attributes are among somebody's waiters. -/
def parkedCount (graph : Graph V) : Nat :=
  (List.range graph.size).countP fun n => graph.parked.contains n

theorem parkedCount_eq (nodup : graph.parked.Nodup) (inside : ∀ n ∈ graph.parked, n < graph.size) :
    graph.parkedCount = graph.parked.length := by
  unfold parkedCount
  rw [List.countP_eq_length_filter]
  refine List.Perm.length_eq ?_
  rw [List.perm_ext_iff_of_nodup (List.nodup_range.filter _) nodup]
  intro n
  simp only [List.mem_filter, List.mem_range, List.contains_iff_mem]
  exact ⟨fun both => both.2, fun mem => ⟨inside n mem, mem⟩⟩

theorem nodup_waiters {m : Nat} {state : Pending} (nodup : graph.parked.Nodup)
    (here : graph.nodes[m]? = some (.pending state)) : state.waiters.Nodup :=
  (List.nodup_flatMap.1 nodup).1 _ (Array.mem_toList_iff.2 (Array.mem_of_getElem? here))

/-- A pending attribute needs another if that stands for one of its parameters. -/
def Needs (graph : Graph V) (n m : Nat) : Prop :=
  ∃ b w o, graph.nodes[n]? = some (.pending ⟨some b, w, o⟩) ∧
    ∃ p ∈ b.params, graph.representative p = .ok m ∧ graph.pendingAt m = true

/-- What is waited for stands for a parameter, and those in front of it are known. -/
theorem split_of_firstPending? (linked : graph.Linked) {ps : List Nat} {m : Nat}
    (inside : ∀ p ∈ ps, p < graph.size) (found : graph.firstPending? ps = .ok (some m)) :
    ∃ known p rest, ps = known ++ p :: rest ∧ (∀ q ∈ known, graph.Known q) ∧
      graph.representative p = .ok m ∧ graph.pendingAt m = true := by
  induction ps with
  | nil => cases found
  | cons p rest ih =>
    obtain ⟨first, others⟩ := List.forall_mem_cons.1 inside
    rcases known_or_pending linked first with known | ⟨rep, walk, pending⟩
    · rw [firstPending?_of_known known] at found
      obtain ⟨front, q, tail, rfl, all, rest⟩ := ih others found
      exact ⟨p :: front, q, tail, rfl, List.forall_mem_cons.2 ⟨known, all⟩, rest⟩
    · rw [firstPending?_of_pending walk pending] at found
      cases found
      exact ⟨[], p, rest, rfl, by simp, walk, pending⟩

end Graph

/-- What a state between two steps promises to those who wait. -/
structure Evaluation.AtRest {σ V : Type} (g : Grammar) (e : Evaluation σ V) : Prop where
  queue : e.queue = []
  /-- An attribute that has to wait is with what stands for the first of its parameters that is
  pending, once, and with nobody else. -/
  waiting : ∀ {n : Nat} {b : Binding} {w : List Nat} {o : Origin} {a : SemanticAction},
    e.graph.nodes[n]? = some (.pending ⟨some b, w, o⟩) → g.action? b = some a → a.isCopy = false →
    ∃ known p rest m state, b.params = known ++ p :: rest ∧ (∀ q ∈ known, e.graph.Known q) ∧
      e.graph.representative p = .ok m ∧ e.graph.nodes[m]? = some (.pending state) ∧
      state.waiters.count n = 1 ∧
      ∀ m' state', e.graph.nodes[m']? = some (.pending state') → n ∈ state'.waiters → m' = m
  copies : ∀ {n : Nat} {b : Binding} {w : List Nat} {o : Origin} {a : SemanticAction},
    e.graph.nodes[n]? = some (.pending ⟨some b, w, o⟩) → g.action? b = some a → a.isCopy = true →
    ∃ p, b.params[0]? = some p ∧ e.graph.representative p = .ok n
  waiters : ∀ {m : Nat} {state : Pending} {n : Nat}, e.graph.nodes[m]? = some (.pending state) →
    n ∈ state.waiters → ∃ b w o a, e.graph.nodes[n]? = some (.pending ⟨some b, w, o⟩) ∧
      g.action? b = some a ∧ a.isCopy = false
  counted : e.stats.deferred = e.stats.replays + e.graph.parkedCount

variable {σ V : Type} {g : Grammar} {h : Host σ V} {options : Options}

theorem Evaluation.Tracked.atRest {e : Evaluation σ V} (tracked : Tracked g none e)
    (healthy : e.Sound g) (queue : e.queue = []) : e.AtRest g := by
  have nodup := tracked.nodup
  have counted := tracked.counted
  have waits : ∀ {n}, n ∈ e.graph.parked ↔ e.graph.Waits g n := by
    intro n
    have whole := @tracked.waits n
    rw [queue, List.nil_append] at whole
    exact whole.trans ⟨fun both => both.1, fun waits => ⟨waits, nofun⟩⟩
  rw [queue, List.nil_append] at nodup counted
  refine ⟨queue, ?_, ?_, ?_, ?_⟩
  · intro n b w o a here action copy
    have mem := waits.2 ⟨b, a, ⟨o, w, here⟩, action, copy⟩
    obtain ⟨m, state, there, among⟩ := Graph.mem_parked.1 mem
    have first := tracked.placed there among ⟨o, w, here⟩
    obtain ⟨known, p, rest, split, all, walk, _⟩ :=
      Graph.split_of_firstPending? healthy.graph.linked (healthy.graph.bound here).2 first
    refine ⟨known, p, rest, m, state, split, all, walk, there, ?_, ?_⟩
    · exact List.count_eq_one_of_mem (Graph.nodup_waiters nodup there) among
    · intro m' state' there' among'
      have other := tracked.placed there' among' ⟨o, w, here⟩
      cases first.symm.trans other
      rfl
  · intro n b w o a here action copy
    obtain ⟨p, params, walk⟩ := tracked.looped ⟨o, w, here⟩ action copy nofun
    exact ⟨p, by rw [params]; rfl, walk⟩
  · intro m state n there among
    have parked := Graph.mem_parked.2 ⟨m, state, there, among⟩
    obtain ⟨b, a, ⟨o, w, here⟩, action, copy⟩ := waits.1 parked
    exact ⟨b, w, o, a, here, action, copy⟩
  · rw [Graph.parkedCount_eq nodup healthy.graph.parked]
    exact counted

/-- A pending attribute that is defined needs a pending attribute. -/
theorem Evaluation.AtRest.needs {e : Evaluation σ V} (rest : e.AtRest g) (healthy : e.Sound g)
    {n : Nat} {b : Binding} {w : List Nat} {o : Origin}
    (here : e.graph.nodes[n]? = some (.pending ⟨some b, w, o⟩)) :
    ∃ m, e.graph.pendingAt m = true ∧ e.graph.Needs n m := by
  obtain ⟨⟨a, defines⟩, _⟩ := healthy.graph.bound here
  cases copy : a.isCopy with
  | true =>
    obtain ⟨p, first, walk⟩ := rest.copies here defines.action copy
    have pending : e.graph.pendingAt n = true := Graph.pendingAt_eq here
    exact ⟨n, pending, b, w, o, here, p, List.mem_of_getElem? first, walk, pending⟩
  | false =>
    obtain ⟨known, p, rest, m, state, split, _, walk, there, _⟩ :=
      rest.waiting here defines.action copy
    have pending : e.graph.pendingAt m = true := Graph.pendingAt_eq there
    exact ⟨m, pending, b, w, o, here, p, by simp [split], walk, pending⟩

theorem Evaluation.tracked_initial (g : Grammar) (control : Control) (host : σ) :
    Tracked g none (initial control host : Evaluation σ V) := by
  refine ⟨List.nodup_nil, ?_, ?_, ?_, rfl⟩
  · intro n
    refine ⟨nofun, ?_⟩
    rintro ⟨⟨b, a, ⟨o, w, here⟩, _⟩, _⟩
    exact nomatch Graph.lt_size here
  · exact fun here => nomatch Graph.lt_size here
  · rintro n b a ⟨o, w, here⟩
    exact nomatch Graph.lt_size here

/-- No wake-up is lost and none is doubled, in every state between two steps; and where every
pending attribute is defined without a circle, none is pending. -/
theorem wakeUps_neither_lost_nor_doubled (valid : g.check = .ok ()) {control : Control}
    {source : Source} {host : σ} {c : Config σ V}
    (reached : Config.Reached g h options control source host c) :
    c.eval.AtRest g ∧
      ((∀ (n : Nat) (state : Pending), c.eval.graph.nodes[n]? = some (.pending state) →
        state.binding ≠ none) → Acyclic c.eval.graph.Needs →
        ∀ n, c.eval.graph.pendingAt n = false) := by
  obtain ⟨healthy, events, run⟩ := reached.sound (Grammar.sound_of_check valid)
  have tracked := run.tracked (sound_initial g control host) (tracked_initial g control host)
  have rest := tracked.atRest healthy.eval healthy.queue
  refine ⟨rest, fun bound acyclic n => ?_⟩
  rw [← Bool.not_eq_true]
  refine acyclic.not_of_leads (P := fun n => c.eval.graph.pendingAt n = true) c.eval.graph.size
    ?_ ?_ n
  · intro n pending
    obtain ⟨state, here⟩ := Graph.exists_pending_of_pendingAt pending
    exact Graph.lt_size here
  · intro n pending
    obtain ⟨⟨binding, w, o⟩, here⟩ := Graph.exists_pending_of_pendingAt pending
    cases binding with
    | none => exact absurd rfl (bound n _ here)
    | some b => exact rest.needs healthy.eval here

section Example

open Samples.Summation

/-- Two numbers, when the second waits for an accumulator that nothing has defined so far. -/
theorem summation_wakeUps : ∃ c, Config.Reached grammar host .default .initial
    (.ofText "1,2" false) (Machine.start false) c ∧
    c.eval.graph.parkedCount = 1 ∧ c.eval.AtRest grammar ∧
      ((∀ (n : Nat) (state : Pending), c.eval.graph.nodes[n]? = some (.pending state) →
        state.binding ≠ none) → Acyclic c.eval.graph.Needs →
        ∀ n, c.eval.graph.pendingAt n = false) := by
  have valid := check_grammar
  have parked : ((Config.start grammar host (.ofText "1,2" false) .initial
      (Machine.start false)).toOption.map fun c =>
        (c.last grammar host .default 4).eval.graph.parkedCount) = some 1 := by decide +kernel
  obtain ⟨c, begun, _⟩ := Config.yields_start (Grammar.sound_of_check valid) host
    (.ofText "1,2" false) .initial (Machine.start false)
  have started : Config.Reached grammar host .default .initial (.ofText "1,2" false)
    (Machine.start false) c := .start begun
  have reached := started.last 4
  rw [begun] at parked
  exact ⟨_, reached, Option.some.inj parked, wakeUps_neither_lost_nor_doubled valid reached⟩

end Example

end GrammarMachine
