import GrammarMachine.Proofs.Graph.Forest
import GrammarMachine.Proofs.Parse.Lockstep

/-!
The replay loop without a bound on its turns. A turn that settles nothing takes one attribute off
the queue and adds none; a turn that settles one leaves fewer pending, whatever it puts on the
queue. So the loop ends, however the definitions of the attributes depend on each other, and so do
the walks along links that its attempts take: at every moment the links are a forest.
-/

namespace GrammarMachine

open Evaluation

namespace Graph

variable {V : Type} {graph : Graph V} {id rep : Nat}

theorem acc_linksTo_of_follow {n : Nat} (walk : graph.follow n id = .ok rep) :
    Acc (fun target id => graph.LinksTo id target) id := by
  induction n generalizing id with
  | zero =>
    refine ⟨_, fun target link => ?_⟩
    rcases follow_eq_ok walk with ⟨node, found, plain, _⟩ | ⟨_, _, _, impossible, _⟩
    · cases found.symm.trans link
      cases plain
    · cases impossible
  | succ n ih =>
    refine ⟨_, fun target link => ?_⟩
    rcases follow_eq_ok walk with ⟨node, found, plain, _⟩ | ⟨next, _, found, same, rest⟩
    · cases found.symm.trans link
      cases plain
    · cases found.symm.trans link
      cases same
      exact ih rest

/-- Walks along links come to an end, which is the representative. -/
structure WalksEnd (graph : Graph V) : Prop where
  links : WellFounded fun target id => graph.LinksTo id target
  representative : ∀ id, id < graph.size → ∃ rep, graph.representative id = .ok rep ∧
    Relation.ReflTransGen graph.LinksTo id rep ∧ ∀ target, ¬graph.LinksTo rep target

theorem Linked.walksEnd (linked : graph.Linked) : graph.WalksEnd where
  links := by
    refine ⟨fun id => ?_⟩
    by_cases inside : id < graph.size
    · obtain ⟨rep, walk⟩ := linked id inside
      exact acc_linksTo_of_follow walk
    · exact ⟨_, fun target link => absurd (lt_size link) inside⟩
  representative id inside := by
    obtain ⟨rep, walk, _, node, found, plain⟩ := yields_representative linked inside
    refine ⟨rep, walk, linksTo_of_follow walk, fun target link => ?_⟩
    cases found.symm.trans link
    cases plain

end Graph

namespace Evaluation

variable {σ V : Type} {g : Grammar} {h : Host σ V} {e e' : Evaluation σ V}

/-- One turn of the replay loop: the first attribute of the queue is attempted again. -/
def Replays (g : Grammar) (h : Host σ V) (e e' : Evaluation σ V) : Prop :=
  ∃ id rest, e.queue = id :: rest ∧ (e.taken rest).attempt g h id = .ok e'

/-- On a sound state a turn makes an attempt. -/
theorem Replays.attempted (replays : Replays g h e e') (sound : g.Sound) (healthy : e.Sound g) :
    ∃ id rest, e.queue = id :: rest ∧ (e.taken rest).Sound g ∧
      Attempted g h id (e.taken rest) e' := by
  obtain ⟨id, rest, queued, result⟩ := replays
  have ready : (e.taken rest).Sound g := healthy.taken queued
  have inside : id < e.graph.size := healthy.queue id (queued ▸ List.mem_cons_self)
  obtain ⟨e'', result', attempted⟩ := yields_attempt (h := h) sound ready inside
  cases result.symm.trans result'
  exact ⟨id, rest, queued, ready, attempted⟩

theorem Replays.sound (replays : Replays g h e e') (sound : g.Sound) (healthy : e.Sound g) :
    e'.Sound g := by
  obtain ⟨_, _, _, ready, attempted⟩ := replays.attempted sound healthy
  exact attempted.sound ready

/-- What descends in the replay loop: the attributes that are pending, and those in the queue. -/
def replayMeasure (e : Evaluation σ V) : Nat × Nat := (e.graph.pendingCount, e.queue.length)

theorem Replays.measure (replays : Replays g h e e') (sound : g.Sound) (healthy : e.Sound g) :
    Prod.Lex (· < ·) (· < ·) e'.replayMeasure e.replayMeasure := by
  obtain ⟨id, rest, queued, _, attempted⟩ := replays.attempted sound healthy
  unfold replayMeasure
  rw [queued]
  rcases attempted.counts with ⟨pending, queue, _⟩ | ⟨fewer, _⟩
  · rw [pending, queue]
    exact .right _ (Nat.lt_succ_self _)
  · exact .left _ _ (Nat.lt_of_succ_le (Nat.le_of_eq fewer))

/-- From a sound state the replay loop cannot go on for ever. -/
theorem acc_replays (sound : g.Sound) (healthy : e.Sound g) :
    Acc (fun later earlier => Replays g h earlier later) e := by
  induction e using
    (InvImage.wf replayMeasure (Prod.lex Nat.lt_wfRel Nat.lt_wfRel).wf).induction with
  | h e ih =>
    refine ⟨_, fun e' replays => ?_⟩
    exact ih e' (replays.measure sound healthy) (replays.sound sound healthy)

/-- What the bounded loop does, the loop without a bound does. -/
theorem replays_of_drainFrom {n : Nat} (drained : drainFrom g h n e = .ok e') :
    Relation.ReflTransGen (Replays g h) e e' := by
  induction n generalizing e with
  | zero =>
    cases queued : e.queue with
    | nil =>
      cases (drainFrom_nil queued).symm.trans drained
      exact .refl
    | cons id rest =>
      obtain ⟨graph, queue, control, host, stats⟩ := e
      cases queued
      cases drained
  | succ n ih =>
    cases queued : e.queue with
    | nil =>
      cases (drainFrom_nil queued).symm.trans drained
      exact .refl
    | cons id rest =>
      rw [drainFrom_cons queued] at drained
      obtain ⟨next, result, later⟩ := bind_eq_ok_iff.1 drained
      exact .head ⟨id, rest, queued, result⟩ (ih later)

theorem replays_of_drain (drained : drain g h e = .ok e') :
    Relation.ReflTransGen (Replays g h) e e' := by
  unfold drain at drained
  split at drained
  · cases drained
    exact .refl
  · exact replays_of_drainFrom drained

/-- Every attempt of a run starts from a sound state. -/
theorem Runs.sound_attempted {events : List (Event σ V)} (run : Runs g h e events e')
    (healthy : e.Sound g) {target : Nat} {before after : Evaluation σ V}
    (mem : .attempted target before after ∈ events) : before.Sound g := by
  refine run.keeps (P := fun events _ => ∀ target before after,
    .attempted target before after ∈ events → before.Sound g) ?_ healthy nofun _ _ _ mem
  intro events more e e' move healthy earlier target before after mem
  rcases List.mem_append.1 mem with old | new
  · exact earlier target before after old
  · cases move with
    | note => cases new
    | leaf => cases new
    | declare => simp at new
    | define here defines params =>
      simp only [List.mem_cons, List.not_mem_nil, or_false, reduceCtorEq, false_or] at new
      cases new
      exact healthy.defined here defines params
    | replay queued =>
      cases List.mem_singleton.1 new
      exact healthy.taken queued

/-- A rule that has been run to its end, by loops that know no bound: one over the actions of the
rule, and one over the queue. -/
structure Completed (g : Grammar) (h : Host σ V) (id : UInt32) (actions : List SemanticAction)
    (lhs : List Nat) (rhs : List (List Nat)) (e e' : Evaluation σ V) : Prop where
  performed : ∃ e₁, performAll g h id lhs rhs 0 actions e = .ok e₁ ∧
    Acc (fun later earlier => Replays g h earlier later) e₁ ∧
    Relation.ReflTransGen (Replays g h) e₁ e'
  empty : e'.queue = []
  walks : ∀ target before after,
    .attempted target before after ∈ runRuleHistory g h id lhs rhs e → before.graph.WalksEnd

theorem yields_completed (sound : g.Sound) (healthy : e.Sound g) {id : UInt32} {r : Rule}
    (rule : g.rules[id.toNat]? = some r) {lhs : List Nat} {rhs : List (List Nat)}
    (covers : e.graph.Covers lhs rhs) :
    Yields (runRule g h id lhs rhs e) (Completed g h id r.actions.toList lhs rhs e) := by
  have inside : id.toNat < g.rules.size := (Array.getElem?_eq_some_iff.1 rule).1
  obtain ⟨e', ran, deeds, empty⟩ := yields_runRule (h := h) sound healthy covers inside
  refine .of_eq ran ⟨?_, empty, fun target before after mem => ?_⟩
  · obtain ⟨e₁, performed, run⟩ :=
      yields_performAll (h := h) sound healthy covers (action?_of_rule rule)
    rw [runRule, Grammar.rule, fetch_eq_ok_iff.2 rule, ok_bind] at ran
    dsimp only at ran
    rw [performed, ok_bind] at ran
    exact ⟨e₁, performed, acc_replays sound (run.runs.sound healthy), replays_of_drain ran⟩
  · exact (deeds.runs.sound_attempted healthy mem).graph.linked.walksEnd

end Evaluation

/-- Evaluation ends, whatever the attributes depend on. In every state of a parse and for every rule
of the grammar, over the frames on top of the stack, the actions are all performed, the replay loop
cannot go on for ever and leaves its queue empty, and every walk along links on the way ends. -/
theorem evaluation_ends {σ V : Type} {g : Grammar} {h : Host σ V} {options : Options}
    {control : Control} {source : Source} {host : σ} (valid : g.check = .ok ()) {c : Config σ V}
    (reached : Config.Reached g h options control source host c) {id : UInt32} {r : Rule}
    (rule : g.rules[id.toNat]? = some r) :
    ∃ n, g.nonterminals[r.lhs.toNat]? = some n ∧
      let frames := (c.stack.take r.length.toNat).reverse
      let o := (frames.head?.map Frame.origin).getD c.lookahead.origin
      let (lhs, e) := c.eval.reducing o n
      ∃ e', runRule g h id lhs (frames.map Frame.attrs) e = .ok e' ∧
        Completed g h id r.actions.toList lhs (frames.map Frame.attrs) e e' := by
  have sound := Grammar.sound_of_check valid
  obtain ⟨healthy, _⟩ := reached.sound sound
  obtain ⟨n, _, lhs⟩ : Yields (g.nonterminal r.lhs) fun n =>
      g.nonterminals[r.lhs.toNat]? = some n :=
    yields_fetch (sound.lhs r (Array.mem_of_getElem? rule))
  refine ⟨n, lhs, ?_⟩
  obtain ⟨_, ready, covers⟩ := Config.deeds_declare (h := h) healthy r.length.toNat
    ((((c.stack.take r.length.toNat).reverse.head?.map Frame.origin)).getD c.lookahead.origin) n
  exact yields_completed sound ready rule covers

section Example

open Samples.Summation

/-- The last rule of a sum, which defines the accumulator that two additions wait for. -/
theorem summation_evaluation_ends : grammar.check = .ok () ∧ ∃ c,
    Config.Reached grammar host .default .initial (.ofText "1,2" false) (Machine.start false) c ∧
    c.eval.stats.deferred = 2 ∧ c.stack.length = 2 ∧
    ∃ n, grammar.nonterminals[0]? = some n ∧
      let frames := (c.stack.take 1).reverse
      let o := (frames.head?.map Frame.origin).getD c.lookahead.origin
      let (lhs, e) := c.eval.reducing o n
      ∃ e', runRule grammar host 0 lhs (frames.map Frame.attrs) e = .ok e' ∧
        Completed grammar host 0 [.call zero ⟨1, accumulator⟩ [], .copy ⟨0, 0⟩ ⟨1, sum⟩] lhs
          (frames.map Frame.attrs) e e' := by
  have valid := check_grammar
  have facts : ((Config.start grammar host (.ofText "1,2" false) .initial
      (Machine.start false)).toOption.map fun c =>
        let c := c.last grammar host .default 5
        (c.eval.stats.deferred, c.stack.length)) = some (2, 2) := by decide +kernel
  obtain ⟨c, begun, _⟩ := Config.yields_start (Grammar.sound_of_check valid) host
    (.ofText "1,2" false) .initial (Machine.start false)
  have started : Config.Reached grammar host .default .initial (.ofText "1,2" false)
    (Machine.start false) c := .start begun
  have reached := started.last 5
  rw [begun] at facts
  obtain ⟨deferred, height⟩ := Prod.mk.inj (Option.some.inj facts)
  have rule : grammar.rules[(0 : UInt32).toNat]? = some ⟨1, total,
    #[.call zero ⟨1, accumulator⟩ [], .copy ⟨0, 0⟩ ⟨1, sum⟩]⟩ := rfl
  exact ⟨valid, _, reached, deferred, height, evaluation_ends valid reached rule⟩

end Example

end GrammarMachine
