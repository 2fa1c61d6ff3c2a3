import GrammarMachine.Proofs.Parse.Callbacks
import Mathlib.Data.List.Nodup

/-!
The books of a parse. The host is asked for an attribute while it is pending and never again, so
that the nodes it was asked for are as many as the calls, and those that it refused as many as the
semantic errors; every error counted has been reported.
-/

namespace GrammarMachine

open Evaluation

namespace Callback

variable {σ V : Type}

/-- The host is asked and refuses. -/
def isRefused (h : Host σ V) (callback : Callback σ V) : Bool :=
  match callback.contact with
  | .call _ call =>
    match (h.execute call callback.eval.control callback.eval.host).1.result with
    | .ok _ => false
    | .error _ => true
  | .report _ _ _ => false

/-- The attributes that the host is asked for, in order. -/
def targets (made : List (Callback σ V)) : List Nat :=
  made.filterMap fun callback => callback.contact.target?

/-- The attributes that the host refuses, in order. -/
def refusals (h : Host σ V) (made : List (Callback σ V)) : List Nat :=
  targets (made.filter (isRefused h))

variable {h : Host σ V} {made more : List (Callback σ V)} {m : Moment σ V} {target : Nat}
  {call : Call V}

theorem targets_append : targets (made ++ more) = targets made ++ targets more :=
  List.filterMap_append

theorem refusals_append : refusals h (made ++ more) = refusals h made ++ refusals h more := by
  rw [refusals, List.filter_append, targets_append]
  rfl

theorem refusals_answer {produced : Produced V}
    (answer : (h.execute call m.eval.control m.eval.host).1.result = .ok produced) :
    refusals h [⟨m, .call target call⟩] = [] := by
  simp [refusals, targets, isRefused, answer]

theorem refusals_refuse {o : Origin} {reason : String} {m' : Moment σ V}
    (answer : (h.execute call m.eval.control m.eval.host).1.result = .error reason) :
    refusals h [⟨m, .call target call⟩, ⟨m', .report .semantic o ⟨.failed, [reason]⟩⟩] =
      [target] := by
  simp [refusals, targets, isRefused, answer, Contact.target?]

end Callback

namespace Graph

variable {V : Type} {graph graph' : Graph V} {p : Node V → Bool} {n target : Nat}

/-- The node is there, and is one of these. -/
def Holds (graph : Graph V) (p : Node V → Bool) (n : Nat) : Prop :=
  ∃ node, graph.nodes[n]? = some node ∧ p node = true

theorem holds_put {state : Pending} {node : Node V}
    (here : graph.nodes[target]? = some (.pending state)) (other : p (.pending state) = false) :
    (graph.put target node).Holds p n ↔ graph.Holds p n ∨ n = target ∧ p node = true := by
  unfold Holds
  by_cases same : target = n
  · subst same
    rw [getElem?_put_self (lt_size here), here]
    simp [other]
  · rw [getElem?_put_ne same]
    simp [Ne.symm same]

theorem SameUsers.holds (users : graph.SameUsers graph')
    (only : ∀ node, p node = true → node.isUser = true) : graph'.Holds p n ↔ graph.Holds p n :=
  exists_congr fun node => and_congr_left fun holds => users n node (only node holds)

/-- Nodes are counted by a list of their numbers. -/
theorem countP_eq_length {numbers : List Nat} (nodup : numbers.Nodup)
    (holds : ∀ n, n ∈ numbers ↔ graph.Holds p n) :
    graph.nodes.toList.countP p = numbers.length := by
  rw [← List.length_findIdxs (s := 0)]
  refine ((List.perm_ext_iff_of_nodup List.nodup_findIdxs nodup).2 fun n => ?_).length_eq
  rw [holds, List.mem_findIdxs_iff_exists_getElem_pos]
  simp only [Holds, Array.getElem?_eq_some_iff, Array.length_toList, Array.getElem_toList]
  constructor
  · rintro ⟨inside, found⟩
    exact ⟨_, ⟨inside, rfl⟩, found⟩
  · rintro ⟨_, ⟨inside, rfl⟩, found⟩
    exact ⟨inside, found⟩

end Graph

namespace Evaluation

variable {σ V : Type} {h : Host σ V} {m m' : Moment σ V} {made : List (Callback σ V)}
  {e : Evaluation σ V} {target : Nat} {call : Call V} {user : Node V}

/-- The host is asked for what is there to ask for, and while it may be asked. -/
def Allowed (callback : Callback σ V) : Prop :=
  ∀ target call, callback.contact = .call target call →
    call.graph = callback.eval.graph ∧ call.Ready ∧ callback.eval.locked = false

/-- A node that the host refused to compute. -/
def isRefusal (node : Node V) : Bool := node.isUser && node.isError

theorem isUser_of_isRefusal (node : Node V) (refused : isRefusal node = true) :
    node.isUser = true := (Bool.and_eq_true_iff.1 refused).1

/-- What the callbacks made so far tell of the state they lead to. -/
structure Booked (h : Host σ V) (made : List (Callback σ V)) (m : Moment σ V) : Prop where
  allowed : ∀ callback ∈ made, Allowed callback
  nodup : (Callback.targets made).Nodup
  users : ∀ n, n ∈ Callback.targets made ↔ m.eval.graph.Holds Node.isUser n
  refusals : ∀ n, n ∈ Callback.refusals h made ↔ m.eval.graph.Holds isRefusal n
  hardCalls : m.eval.stats.hardCalls = (Callback.targets made).length
  semanticErrors : m.eval.stats.semanticErrors = (Callback.refusals h made).length
  errors : m.eval.stats.errors = made.countP fun callback => callback.contact.isReport

namespace Booked

theorem quiet (booked : Booked h made m) (quiet : m.eval.Quiet e)
    (users : m.eval.graph.SameUsers e.graph) : Booked h made ⟨m.lexer, e⟩ := by
  obtain ⟨_, _, actions, deferred, replays, stats⟩ := quiet
  refine ⟨booked.allowed, booked.nodup, fun n => ?_, fun n => ?_, ?_, ?_, ?_⟩
  · rw [booked.users, users.holds fun _ => id]
  · rw [booked.refusals, users.holds isUser_of_isRefusal]
  · rw [stats]
    exact booked.hardCalls
  · rw [stats]
    exact booked.semanticErrors
  · rw [stats]
    exact booked.errors

/-- The host is asked for `target` and told what it refused, and `target` becomes what it
answered. -/
theorem ask (booked : Booked h made m) {state : Pending} {queue : List Nat}
    {told : List (Callback σ V)}
    (pending : m.eval.graph.nodes[target]? = some (.pending state))
    (graph : call.graph = m.eval.graph) (ready : call.Ready) (free : m.eval.locked = false)
    (computed : user.isUser = true)
    (reports : ∀ callback ∈ told, callback.contact.isReport = true)
    (refused : Callback.refusals h (⟨m, .call target call⟩ :: told) =
      if user.isError then [target] else [])
    (hardCalls : e.stats.hardCalls = m.eval.stats.hardCalls + 1)
    (semanticErrors : e.stats.semanticErrors =
      m.eval.stats.semanticErrors + if user.isError then 1 else 0)
    (errors : e.stats.errors = m.eval.stats.errors + told.length) :
    Booked h (made ++ ⟨m, .call target call⟩ :: told)
      ⟨m.lexer, { e with graph := m.eval.graph.put target user, queue }⟩ := by
  have asked : Callback.targets (⟨m, .call target call⟩ :: told) = [target] := by
    refine congrArg (target :: ·) (List.filterMap_eq_nil_iff.2 fun callback mem => ?_)
    have report := reports callback mem
    cases contact : callback.contact with
    | call => simp [contact, Contact.isReport] at report
    | report => rfl
  have fresh : ¬m.eval.graph.Holds Node.isUser target := by
    rintro ⟨node, there, holds⟩
    cases pending.symm.trans there
    cases holds
  refine ⟨?_, ?_, fun n => ?_, fun n => ?_, ?_, ?_, ?_⟩
  · intro callback mem
    rcases List.mem_append.1 mem with old | new
    · exact booked.allowed callback old
    · rcases List.mem_cons.1 new with rfl | later
      · rintro _ _ ⟨⟩
        exact ⟨graph, ready, free⟩
      · intro _ _ same
        have report := reports callback later
        rw [same] at report
        cases report
  · rw [Callback.targets_append, asked]
    simpa using booked.nodup.concat fun mem => fresh ((booked.users target).1 mem)
  · rw [Callback.targets_append, asked, List.mem_append, booked.users, Graph.holds_put pending rfl]
    simp [computed]
  · rw [Callback.refusals_append, refused, List.mem_append, booked.refusals,
      Graph.holds_put pending rfl]
    cases error : user.isError <;> simp [isRefusal, computed, error]
  · rw [Callback.targets_append, asked, List.length_append, ← booked.hardCalls]
    exact hardCalls
  · rw [Callback.refusals_append, refused, List.length_append, ← booked.semanticErrors]
    refine semanticErrors.trans ?_
    cases user.isError <;> rfl
  · rw [List.countP_append, ← booked.errors]
    refine errors.trans ?_
    have all : told.countP (fun callback => callback.contact.isReport) = told.length :=
      List.countP_eq_length.2 reports
    rw [List.countP_cons, all]
    rfl

theorem report (booked : Booked h made m) {kind : ErrorKind} {o : Origin} {message : Message}
    (textual : kind ≠ .semantic) :
    Booked h (made ++ [⟨m, .report kind o message⟩])
      ⟨m.lexer, m.eval.report h kind o message⟩ := by
  have none : Callback.targets [(⟨m, .report kind o message⟩ : Callback σ V)] = [] := rfl
  have accepted : Callback.refusals h [(⟨m, .report kind o message⟩ : Callback σ V)] = [] := rfl
  refine ⟨?_, ?_, fun n => ?_, fun n => ?_, ?_, ?_, ?_⟩
  · intro callback mem
    rcases List.mem_append.1 mem with old | new
    · exact booked.allowed callback old
    · rw [List.mem_singleton.1 new]
      exact fun _ _ same => (nomatch same)
  · rw [Callback.targets_append, none, List.append_nil]
    exact booked.nodup
  · rw [Callback.targets_append, none, List.append_nil]
    exact booked.users n
  · rw [Callback.refusals_append, accepted, List.append_nil]
    exact booked.refusals n
  · rw [Callback.targets_append, none, List.append_nil, ← booked.hardCalls]
    cases kind <;> rfl
  · rw [Callback.refusals_append, accepted, List.append_nil, ← booked.semanticErrors]
    cases kind with
    | semantic => exact absurd rfl textual
    | _ => rfl
  · rw [List.countP_append, ← booked.errors]
    exact Stats.errors_count _ _

end Booked

theorem Acts.booked (acts : Acts h m made m') (start : Booked h [] m) : Booked h made m' := by
  induction acts with
  | refl => exact start
  | quiet _ quiet users ih => exact ih.quiet quiet users
  | @answer _ m' _ _ call _ _ _ pending graph ready free answer ih =>
    refine ih.ask (e := m'.eval.called h call) pending graph ready free rfl ?_ ?_ rfl rfl rfl
    · exact fun _ mem => (nomatch mem)
    · exact Callback.refusals_answer answer
  | @refuse _ m' _ _ call o reason _ _ pending graph ready free answer ih =>
    refine ih.ask (e := (m'.eval.called h call).report h .semantic o ⟨.failed, [reason]⟩) pending
      graph ready free rfl ?_ ?_ rfl rfl ?_
    · intro callback mem
      rw [List.mem_singleton.1 mem]
      rfl
    · exact Callback.refusals_refuse answer
    · exact Stats.errors_count _ _
  | report _ textual _ ih => exact ih.report textual
  | work _ _ _ _ _ _ ih =>
    exact ⟨ih.allowed, ih.nodup, ih.users, ih.refusals, ih.hardCalls, ih.semanticErrors, ih.errors⟩

theorem booked_initial (h : Host σ V) (lexer : Lexer) (control : Control) (host : σ) :
    Booked h [] ⟨lexer, .initial control host⟩ := by
  have empty : ∀ p n, ¬(Graph.empty : Graph V).Holds p n := by
    rintro p n ⟨node, there, _⟩
    exact nomatch Graph.lt_size there
  refine ⟨fun _ mem => (nomatch mem), .nil, fun n => ?_, fun n => ?_, rfl, rfl, rfl⟩
  · exact iff_of_false List.not_mem_nil (empty _ n)
  · exact iff_of_false List.not_mem_nil (empty _ n)

end Evaluation

/-- The discipline of calls. After any number of steps: the host has seen the callbacks of the parse
and nothing else; it was asked with parameters that all have a value and are no errors, never in
spite of a lock, and never twice for one attribute; calls and refusals are counted, and are as many
as the nodes they made; and as many errors were reported as are counted. -/
theorem calls_are_accounted_for {σ V : Type} {g : Grammar} (valid : g.check = .ok ())
    (h : Host σ V) (control : Control) (options : Options) (fuel : Nat) (source : Source)
    (host : σ) :
    let callbacks := parseCallbacks control g h options fuel source host
    ∃ last, parseLast control g h options fuel source host = .ok last ∧
      (∀ log, h.Logs log →
        log last.eval.host = log host ++ callbacks.map (Callback.exchange h)) ∧
      (∀ callback ∈ callbacks, ∀ target call, callback.contact = .call target call →
        call.graph = callback.eval.graph ∧ call.Ready ∧
          ¬(callback.eval.control.locked = true ∧ 0 < callback.eval.stats.errors)) ∧
      (Callback.targets callbacks).Nodup ∧
      last.eval.stats.hardCalls = (Callback.targets callbacks).length ∧
      last.eval.stats.hardCalls = last.eval.graph.nodes.toList.countP Node.isUser ∧
      last.eval.stats.semanticErrors =
        (last.eval.graph.nodes.toList.countP fun node => node.isUser && node.isError) ∧
      last.eval.stats.lexicalErrors + last.eval.stats.syntaxErrors +
        last.eval.stats.semanticErrors =
          callbacks.countP fun callback => callback.contact.isReport := by
  intro callbacks
  obtain ⟨lexer, last, at_last, acts⟩ :=
    acts_parse (Grammar.sound_of_check valid) h control options fuel source host
  have booked := acts.booked (booked_initial h lexer control host)
  have distinct : (Callback.refusals h callbacks).Nodup :=
    booked.nodup.sublist (List.filter_sublist.filterMap _)
  refine ⟨last, at_last, fun log => acts.logs, ?_, booked.nodup, booked.hardCalls, ?_, ?_,
    booked.errors⟩
  · intro callback mem target call asked
    obtain ⟨graph, ready, free⟩ := booked.allowed callback mem target call asked
    refine ⟨graph, ready, fun ⟨locked, error⟩ => ?_⟩
    simp [Evaluation.locked, locked, Nat.pos_iff_ne_zero.1 error] at free
  · exact booked.hardCalls.trans (Graph.countP_eq_length booked.nodup booked.users).symm
  · exact booked.semanticErrors.trans (Graph.countP_eq_length distinct booked.refusals).symm

section Example

open Samples.Calculator

/-- A sum with a character that nothing matches, and a number that is out of range by one: the
host is asked for both numbers and refuses one, and not for the sum. -/
theorem calculator_calls_are_accounted_for : (grammar .hard).check = .ok () ∧ ∃ last,
    parseLast .initial (grammar .hard) host.journaling .default 40
      (.ofText "1?+9223372036854775808" false) (Machine.start false, []) = .ok last ∧
    last.eval.host.2.length = 4 ∧ last.eval.stats.hardCalls = 2 ∧
    last.eval.graph.nodes.toList.countP Node.isUser = 2 ∧
    last.eval.stats.semanticErrors = 1 := by
  have valid := Samples.Calculator.check_grammar .hard
  let callbacks := parseCallbacks .initial (grammar .hard) host.journaling .default 40
    (.ofText "1?+9223372036854775808" false) (Machine.start false, [])
  have made : callbacks.length = 4 ∧ (Callback.targets callbacks).length = 2 := by decide +kernel
  have refused : ((parseLast .initial (grammar .hard) host.journaling .default 40
      (.ofText "1?+9223372036854775808" false) (Machine.start false, [])).toOption.map fun last =>
        last.eval.stats.semanticErrors) = some 1 := by decide +kernel
  obtain ⟨last, at_last, logged, _, _, calls, nodes, _, _⟩ :=
    calls_are_accounted_for valid host.journaling .initial .default 40
      (.ofText "1?+9223372036854775808" false) (Machine.start false, [])
  rw [at_last] at refused
  have journal := congrArg List.length (logged Prod.snd host.logs_journaling)
  rw [List.nil_append, List.length_map] at journal
  exact ⟨valid, last, at_last, journal.trans made.1, calls.trans made.2,
    nodes.symm.trans (calls.trans made.2), Option.some.inj refused⟩

end Example

end GrammarMachine
