import GrammarMachine.Proofs.Evaluation.Arithmetic
import GrammarMachine.Proofs.Evaluation.Chains
import Mathlib.Algebra.BigOperators.Group.List.Basic

/-!
How waiting sums are computed. When the accumulator of the whole list becomes known, the sums behind
it are attempted one after the other, each as soon as the one in front of it has been computed. So
the list is folded from the left, up to the first number or sum that does not fit into 64 bits.
-/

namespace GrammarMachine.Samples.Summation

open Evaluation
open Calculator (IsNumeral int64?_eq numeral?_eq)

/-- The integer that a numeral spells. -/
def worth (text : String) : Int :=
  (Nat.ofDigits 10 (text.toList.reverse.map fun c => c.toNat - '0'.toNat) : Nat)

/-- An integer of 64 bits. -/
def Small (n : Int) : Prop := -2 ^ 63 ≤ n ∧ n < 2 ^ 63

instance (n : Int) : Decidable (Small n) :=
  inferInstanceAs (Decidable (-2 ^ 63 ≤ n ∧ n < 2 ^ 63))

/-- The number behind the first `k` and the sum with it, counted from `acc` on, are small. -/
def FitsFrom (acc : Int) (as : List Int) (k : Nat) : Prop :=
  Small (as.getD k 0) ∧ Small (acc + (as.take (k + 1)).sum)

instance (acc : Int) (as : List Int) (k : Nat) : Decidable (FitsFrom acc as k) :=
  inferInstanceAs (Decidable (_ ∧ _))

/-- What an addition that was put off makes of the sum in front of it. -/
def step : Option Int × Tally → Int → Option Int × Tally
  | (none, T), _ => (none, { T with replays := T.replays + 1 })
  | (some s, T), a =>
    if Small a ∧ Small (s + a) then
      (some (s + a), { T with
        replays := T.replays + 1
        hardCalls := T.hardCalls + 1
        trace := T.trace ++ [(add, s + a)] })
    else
      (none, { T with
        replays := T.replays + 1
        hardCalls := T.hardCalls + 1
        semanticErrors := T.semanticErrors + 1 })

section Folding

variable {acc : Int} {as : List Int} {k : Nat}

theorem foldl_step_none (T : Tally) (as : List Int) :
    as.foldl step (none, T) = (none, { T with replays := T.replays + as.length }) := by
  induction as generalizing T with
  | nil => rfl
  | cons a rest ih =>
    rw [List.foldl_cons, step, ih, List.length_cons, Nat.add_right_comm, Nat.add_assoc]

/-- Each of the additions that were put off is attempted once more. -/
theorem replays_foldl_step (whole : Option Int × Tally) (as : List Int) :
    (as.foldl step whole).2.deferred = whole.2.deferred ∧
      (as.foldl step whole).2.replays = whole.2.replays + as.length := by
  have once : ∀ (whole : Option Int × Tally) (a : Int),
      (step whole a).2.deferred = whole.2.deferred ∧
        (step whole a).2.replays = whole.2.replays + 1 := by
    rintro ⟨acc, T⟩ a
    cases acc with
    | none => exact ⟨rfl, rfl⟩
    | some s =>
      rw [step]
      split <;> exact ⟨rfl, rfl⟩
  induction as generalizing whole with
  | nil => exact ⟨rfl, rfl⟩
  | cons a rest ih =>
    obtain ⟨deferred, replays⟩ := ih (step whole a)
    rw [List.foldl_cons, deferred, replays, (once whole a).1, (once whole a).2, List.length_cons,
      Nat.add_right_comm, Nat.add_assoc]
    exact ⟨rfl, rfl⟩

theorem fitsFrom_cons_succ (a : Int) :
    FitsFrom acc (a :: as) (k + 1) ↔ FitsFrom (acc + a) as k := by
  rw [FitsFrom, FitsFrom, List.getD_cons_succ, List.take_succ_cons, List.sum_cons, Int.add_assoc]

theorem fitsFrom_take {j : Nat} (lt : j < k) :
    FitsFrom acc (as.take k) j ↔ FitsFrom acc as j := by
  rw [FitsFrom, FitsFrom, List.take_take, Nat.min_eq_left lt, List.getD_eq_getElem?_getD,
    List.getD_eq_getElem?_getD, List.getElem?_take_of_lt lt]

/-- Where all fits, each sum is computed in its turn. -/
theorem foldl_step_of_fits (T : Tally) (fits : ∀ k < as.length, FitsFrom acc as k) :
    as.foldl step (some acc, T) = (some (acc + as.sum), { T with
      replays := T.replays + as.length
      hardCalls := T.hardCalls + as.length
      trace := T.trace ++
        (List.range as.length).map fun k => (add, acc + (as.take (k + 1)).sum) }) := by
  induction as generalizing acc T with
  | nil => simp
  | cons a rest ih =>
    have first : Small a ∧ Small (acc + a) := by
      simpa [FitsFrom] using fits 0 (Nat.succ_pos _)
    have others : ∀ k < rest.length, FitsFrom (acc + a) rest k := fun k lt =>
      (fitsFrom_cons_succ a).1 (fits (k + 1) (Nat.succ_lt_succ lt))
    rw [List.foldl_cons, step, if_pos first, ih _ others, List.length_cons,
      List.range_succ_eq_map]
    simp only [List.map_cons, List.map_map, List.take_succ_cons, List.sum_cons, List.take_zero,
      List.sum_nil, Int.add_zero, List.append_assoc, List.singleton_append, Function.comp_def,
      Int.add_assoc, Nat.add_right_comm, Nat.add_assoc]

/-- The first number or sum that does not fit is refused, and nothing is computed behind it. -/
theorem foldl_step_of_unfit (T : Tally) (lt : k < as.length) (unfit : ¬FitsFrom acc as k)
    (fits : ∀ j < k, FitsFrom acc as j) :
    as.foldl step (some acc, T) = (none, { T with
      replays := T.replays + as.length
      hardCalls := T.hardCalls + (k + 1)
      semanticErrors := T.semanticErrors + 1
      trace := T.trace ++ (List.range k).map fun j => (add, acc + (as.take (j + 1)).sum) }) := by
  have length : (as.take k).length = k := List.length_take_of_le (Nat.le_of_lt lt)
  have front : ∀ j < (as.take k).length, FitsFrom acc (as.take k) j := fun j inside =>
    (fitsFrom_take (length ▸ inside)).2 (fits j (length ▸ inside))
  have refused : ¬(Small as[k] ∧ Small (acc + (as.take k).sum + as[k])) := by
    rw [FitsFrom, List.getD_eq_getElem?_getD, List.getElem?_eq_getElem lt, Option.getD_some,
      List.sum_take_succ _ _ lt, ← Int.add_assoc] at unfit
    exact unfit
  have trace : ((List.range k).map fun j => (add, acc + ((as.take k).take (j + 1)).sum)) =
      (List.range k).map fun j => (add, acc + (as.take (j + 1)).sum) := by
    refine List.map_congr_left fun j mem => ?_
    rw [List.take_take, Nat.min_eq_left (List.mem_range.1 mem)]
  have rest : k + 1 + (as.length - (k + 1)) = as.length := by omega
  conv_lhs => rw [← List.take_append_drop k as, List.drop_eq_getElem_cons lt]
  rw [List.foldl_append, foldl_step_of_fits T front, List.foldl_cons, step, if_neg refused,
    foldl_step_none, length, List.length_drop, trace]
  simp only [Nat.add_assoc, rest]

end Folding

/-- The node for a sum, or for one that was not computed. -/
inductive Holds : Option Int → Node Int → Prop
  | value {n : Int} {f : UInt32} {pos : Nat} : Holds (some n) (.user f (some n) pos false)
  | refusal {f : UInt32} {pos : Nat} : Holds none (.user f none pos true)
  | null : Holds none .null

theorem Holds.plain {acc : Option Int} {node : Node Int} (holds : Holds acc node) :
    node.isPending = false ∧ node.isLink = false := by
  cases holds <;> exact ⟨rfl, rfl⟩

/-- A number is added if it fits and so does the sum. -/
theorem result_add {call : Call Int} {s : Int} {text : String} (function : call.function = add)
    (left : call.value? 0 = some s) (right : call.text? 1 = some text) (numeral : IsNumeral text) :
    Small (worth text) ∧ Small (s + worth text) ∧ Machine.result call = .ok (s + worth text) ∨
      ¬(Small (worth text) ∧ Small (s + worth text)) ∧
        ∃ reason, Machine.result call = .error reason := by
  have value : numeral? text = if Small (worth text) then some (worth text) else none :=
    (numeral?_eq numeral).trans (int64?_eq _)
  have whole : int64? (s + worth text) =
      if Small (s + worth text) then some (s + worth text) else none := int64?_eq _
  have result : Machine.result call = Machine.addition call := by
    rw [Machine.result, function]
    rfl
  rw [result, Machine.addition, left]
  dsimp only
  rw [right, Option.getD_some, value]
  by_cases first : Small (worth text)
  · rw [if_pos first]
    dsimp only
    rw [whole]
    by_cases second : Small (s + worth text)
    · rw [if_pos second]
      exact .inl ⟨first, second, rfl⟩
    · rw [if_neg second]
      exact .inr ⟨fun both => second both.2, _, rfl⟩
  · rw [if_neg first]
    exact .inr ⟨fun both => first both.1, _, rfl⟩

theorem Holds.isError {acc : Option Int} {node : Node Int} (holds : Holds acc node) :
    node.isError = acc.isNone := by
  cases holds <;> rfl

section Running

variable {e e' e₁ : Evaluation Machine Int} {a : SemanticAction} {acc : Option Int}
  {left node : Node Int} {text : String} {ps : List Nat} {pos : Nat} {o : Origin}

/-- The state after the host has returned a value. -/
theorem called_of_result {call : Call Int} {n : Int} (result : Machine.result call = .ok n)
    (e : Evaluation Machine Int) :
    (host.execute call e.control e.host).1.result = .ok ⟨n, none⟩ ∧
      (e.called host call).control = e.control ∧ tally (e.called host call) = { tally e with
        hardCalls := (tally e).hardCalls + 1
        trace := (tally e).trace ++ [(call.function, n)] } := by
  have executes : host.execute call e.control e.host =
      (.value n, { e.host with trace := e.host.trace.push (call.function, n) }) := by
    change e.host.execute call = _
    rw [Machine.execute, result]
  unfold called
  rw [executes]
  exact ⟨rfl, rfl, by simp [tally]⟩

/-- The state after the host has refused, and has been told of it. -/
theorem called_of_refusal {call : Call Int} {reason : String}
    (result : Machine.result call = .error reason) (e : Evaluation Machine Int) (o : Origin)
    (message : Message) :
    (host.execute call e.control e.host).1.result = .error reason ∧
      (((e.called host call).report host .semantic o message).control.locked = e.control.locked) ∧
      tally ((e.called host call).report host .semantic o message) = { tally e with
        hardCalls := (tally e).hardCalls + 1
        semanticErrors := (tally e).semanticErrors + 1 } := by
  have executes : host.execute call e.control e.host = (.refuse reason, e.host) := by
    change e.host.execute call = _
    rw [Machine.execute, result]
  unfold called
  rw [executes]
  refine ⟨rfl, ?_, rfl⟩
  change (e.control.obeyAll (if e.host.log.stopOnFirst then [.stop] else [])).locked = _
  split <;> rfl

/-- What is computed of a sum and one more number, by an attempt that has been counted. -/
theorem Holds.add {T : Tally} (holds : Holds acc left) (unlocked : e.control.locked = false)
    (counts : tally e = { T with replays := T.replays + 1 })
    (resolves : List.Forall₂ e.graph.Resolves ps [left, .text text pos false])
    (numeral : IsNumeral text) (hard : a.soft = false) (function : a.function = Summation.add)
    (computed : Computed host a ps o e node e₁) :
    Holds (step (acc, T) (worth text)).1 node ∧ e₁.control.locked = false ∧
      tally e₁ = (step (acc, T) (worth text)).2 := by
  have param : ∀ i, (⟨a.function, o.pos, ps, e.graph⟩ : Call Int).param? i =
      [left, .text text pos false][i]? := Call.param?_of_resolves resolves
  have flagged : ∀ {flags : List Bool}, ps.mapM e.graph.isError = .ok flags →
      (flags.contains true || e.locked) = acc.isNone := by
    intro flags errors
    cases errors.symm.trans (Graph.mapM_isError resolves)
    rw [Evaluation.locked, unlocked, List.map_cons, holds.isError]
    cases acc <;> rfl
  -- Where there is a sum, the host is asked to add the number to it.
  have asked : ∀ {flags : List Bool}, ps.mapM e.graph.isError = .ok flags →
      (flags.contains true || e.locked) = false → ∃ s, acc = some s ∧
        (Small (worth text) ∧ Small (s + worth text) ∧
          Machine.result ⟨a.function, o.pos, ps, e.graph⟩ = .ok (s + worth text) ∨
        ¬(Small (worth text) ∧ Small (s + worth text)) ∧
          ∃ reason, Machine.result ⟨a.function, o.pos, ps, e.graph⟩ = .error reason) := by
    intro flags errors free
    rw [flagged errors] at free
    cases holds with
    | value =>
      exact ⟨_, rfl, result_add function (by simp [Call.value?, param])
        (by simp [Call.text?, param]) numeral⟩
    | refusal => cases free
    | null => cases free
  cases computed with
  | term _ soft => exact absurd (hard.symm.trans soft) Bool.false_ne_true
  | null errors _ blocked =>
    rw [flagged errors, Option.isNone_iff_eq_none] at blocked
    subst blocked
    exact ⟨.null, unlocked, counts⟩
  | value errors _ free answer =>
    obtain ⟨s, rfl, answered⟩ := asked errors free
    rcases answered with ⟨first, second, result⟩ | ⟨_, reason, result⟩
    · obtain ⟨same, control, counted⟩ := called_of_result result e
      cases answer.symm.trans same
      rw [step, if_pos ⟨first, second⟩, counted, control, counts, ← function]
      exact ⟨.value, unlocked, rfl⟩
    · obtain ⟨same, _⟩ := called_of_refusal result e o ⟨.failed, []⟩
      cases answer.symm.trans same
  | @refusal _ reason errors _ free answer =>
    obtain ⟨s, rfl, answered⟩ := asked errors free
    rcases answered with ⟨_, _, result⟩ | ⟨unfit, reason', result⟩
    · obtain ⟨same, _⟩ := called_of_result result e
      cases answer.symm.trans same
    · obtain ⟨_, control, counted⟩ := called_of_refusal result e o ⟨.failed, [reason]⟩
      rw [step, if_neg unfit, counted, control, counts]
      exact ⟨.refusal, unlocked, rfl⟩

/-- The attempt at a sum, when the one in front of it is known. -/
theorem Holds.attempted {b : Binding} {m n q : Nat} {w rest : List Nat} (holds : Holds acc left)
    (sum : e.graph.Resolves n left) (number : e.graph.Resolves q (.text text pos false))
    (numeral : IsNumeral text) (here : e.graph.nodes[m]? = some (.pending ⟨some b, w, o⟩))
    (adds : Adds b n q) (unlocked : e.control.locked = false)
    (attempted : Attempted grammar host m (e.taken rest) e') :
    ∃ node, Holds (step (acc, tally e) (worth text)).1 node ∧ e'.graph = e.graph.put m node ∧
      e'.queue = rest ++ w ∧ e'.control.locked = false ∧
      tally e' = (step (acc, tally e) (worth text)).2 := by
  obtain ⟨⟨slot, slots, action⟩, params⟩ := adds
  have resolves : List.Forall₂ e.graph.Resolves b.params [left, .text text pos false] := by
    rw [params]
    exact .cons sum (.cons number .nil)
  rcases attempted.of_known here action (Graph.known_of_resolves resolves) with
    ⟨copy, _⟩ | ⟨_, node, e₁, computed, rfl⟩
  · cases copy
  · obtain ⟨holds, unlocked, counts⟩ :=
      holds.add (e := e.taken rest) (T := tally e) unlocked rfl resolves numeral rfl rfl computed
    exact ⟨node, holds, rfl, rfl, unlocked, counts⟩

/-- Sums that wait for one another are computed one after the other. -/
theorem Holds.drained {b : Binding} {last m n q N : Nat} {ns : List Nat} {ts : List String}
    (holds : Holds acc left) (healthy : e.Sound grammar) (queued : e.queue = [m])
    (chain : Chain e.graph last (some b) (m :: ns) ts) (adds : Adds b n q)
    (sum : e.graph.Resolves n left) (number : e.graph.Resolves q (.text text pos false))
    (numerals : ∀ t ∈ text :: ts, IsNumeral t) (unlocked : e.control.locked = false)
    (ran : drainFrom grammar host N e = .ok e') :
    ∃ node, e'.graph.Resolves last node ∧
      Holds (((text :: ts).map worth).foldl step (acc, tally e)).1 node ∧
      tally e' = (((text :: ts).map worth).foldl step (acc, tally e)).2 := by
  have sound := Grammar.sound_of_check check_grammar
  induction N generalizing e acc left text pos b m n q ns ts with
  | zero =>
    obtain ⟨graph, queue, control, host, stats⟩ := e
    cases queued
    cases ran
  | succ N ih =>
    obtain ⟨first, others⟩ := List.forall_mem_cons.1 numerals
    obtain ⟨⟨o, here⟩, _⟩ := chain.here
    rw [drainFrom_cons queued] at ran
    obtain ⟨e₁, result, rest⟩ := bind_eq_ok_iff.1 ran
    obtain ⟨_, same, attempted⟩ := yields_attempt sound (healthy.taken queued) (Graph.lt_size here)
    cases result.symm.trans same
    obtain ⟨node, computed, graph, queue, unlocked₁, counts⟩ :=
      holds.attempted sum number first here adds unlocked attempted
    have known : e₁.graph.Resolves m node := by
      rw [graph]
      exact Graph.resolves_of_plain (Graph.getElem?_put_self (Graph.lt_size here))
        computed.plain.1 computed.plain.2
    have healthy₁ := attempted.sound (healthy.taken queued)
    cases chain with
    | ended =>
      rw [drainFrom_nil queue] at rest
      cases rest
      exact ⟨node, known, computed, counts⟩
    | @more _ _ _ m' _ _ _ ns' _ _ _ adds number new chain =>
      -- Nothing has changed but the one sum, and the next one is in the queue now.
      have linked := healthy₁.graph.linked
      have same : ∀ k ∈ m' :: ns', e₁.graph.nodes[k]? = e.graph.nodes[k]? := by
        intro k mem
        rw [graph]
        exact Graph.getElem?_put_ne fun same => new (same ▸ mem)
      have later := ih computed healthy₁ queue (chain.congr same attempted.grows linked) adds known
        (number.grows attempted.grows linked) others unlocked₁ rest
      rw [counts] at later
      exact later

/-- The accumulator of the whole list. -/
theorem computed_zero {slot : Slot} (unlocked : e.control.locked = false)
    (computed : Computed host (.call zero slot []) [] o e node e₁) :
    Holds (some 0) node ∧ e₁.control.locked = false ∧ tally e₁ = { tally e with
      hardCalls := (tally e).hardCalls + 1
      trace := (tally e).trace ++ [(zero, 0)] } := by
  have result : Machine.result ⟨zero, o.pos, [], e.graph⟩ = .ok 0 := rfl
  obtain ⟨same, control, counts⟩ := called_of_result result e
  cases computed with
  | term _ soft => cases soft
  | null errors _ blocked =>
    cases errors
    rw [Evaluation.locked, unlocked] at blocked
    cases blocked
  | value _ _ _ answer =>
    cases answer.symm.trans same
    exact ⟨.value, control ▸ unlocked, counts⟩
  | refusal _ _ _ answer => cases answer.symm.trans same

/-- The first action of the rule around a list, which wakes the first sum. -/
theorem yields_perform_zero {acc : Nat} {w : List Nat} (val sum : Nat) (healthy : e.Sound grammar)
    (here : e.graph.nodes[acc]? = some (.pending ⟨none, w, o⟩))
    (unlocked : e.control.locked = false) :
    Yields (e.perform grammar host 0 [val] [[acc, sum]] 0 (.call zero ⟨1, 0⟩ [])) fun e₁ =>
      ∃ node, Holds (some 0) node ∧ e₁.Sound grammar ∧ e.graph.Grows e₁.graph ∧
        e₁.graph = e.graph.put acc node ∧ e₁.queue = e.queue ++ w ∧ e₁.control.locked = false ∧
        tally e₁ = { tally e with
          hardCalls := (tally e).hardCalls + 1
          trace := (tally e).trace ++ [(zero, 0)] } := by
  obtain ⟨binds, bound, e₁, performed, attempted⟩ :=
    yields_perform_fresh (h := host) (Grammar.sound_of_check check_grammar) healthy
      (.call zero ⟨1, 0⟩ []) 0 0 [val] [[acc, sum]] rfl .nil here nofun rfl
  have healthy₁ := attempted.sound binds.sound
  have grows₁ := binds.grows.trans attempted.grows
  rcases attempted.of_known bound rfl nofun with ⟨copy, _⟩ | ⟨_, node, e₂, computed, rfl⟩
  · cases copy
  have computed : Computed host (.call zero ⟨1, 0⟩ []) [] o _ node e₂ := computed
  obtain ⟨holds, unlocked, counts⟩ := computed_zero (by exact unlocked) computed
  exact .of_eq performed
    ⟨node, holds, healthy₁, grows₁, Graph.put_put .., rfl, unlocked, counts⟩

/-- When the rule around a list is reduced, all of the list is computed. -/
theorem Folded.summed {val acc sum : Nat} {t : String} {ts : List String}
    (folded : Folded e.graph acc sum (t :: ts))
    (fresh : e.graph.nodes[val]? = some (.pending ⟨none, [], o⟩))
    (numerals : ∀ s ∈ t :: ts, IsNumeral s) (unlocked : e.control.locked = false)
    (ran : Ran grammar host 0 [val] [[acc, sum]] e e') :
    let computed := ((t :: ts).map worth).foldl step (some 0, { tally e with
      hardCalls := (tally e).hardCalls + 1
      trace := (tally e).trace ++ [(zero, 0)] })
    ∃ node, e'.graph.Resolves val node ∧ Holds computed.1 node ∧ tally e' = computed.2 := by
  obtain ⟨ns, last, chain, walk⟩ := folded
  have outside := chain.not_mem_of_fresh (.inr (List.cons_ne_nil _ _)) fresh
  cases chain with
  | @more _ b _ m q pos o' ns _ _ here adds number new chain =>
  rw [List.mem_cons, not_or] at outside
  obtain ⟨apart, outside⟩ := outside
  obtain ⟨e₁, zeroed, node, holds, healthy₁, grows₁, graph₁, queue₁, unlocked₁, counts₁⟩ :=
    yields_perform_zero val sum ran.sound here unlocked
  have linked₁ := healthy₁.graph.linked
  have known : e₁.graph.Resolves acc node := by
    rw [graph₁]
    exact Graph.resolves_of_plain (Graph.getElem?_put_self (Graph.lt_size here)) holds.plain.1
      holds.plain.2
  have chain₁ : Chain e₁.graph last (some b) (m :: ns) ts := by
    refine chain.congr (fun k mem => ?_) grows₁ linked₁
    rw [graph₁]
    exact Graph.getElem?_put_ne fun same => new (same ▸ mem)
  -- The value of the whole is an alias for the last sum.
  obtain ⟨state, at_last⟩ := chain₁.last_pending
  have fresh₁ : e₁.graph.nodes[val]? = some (.pending ⟨none, [], o⟩) := by
    rw [graph₁, Graph.getElem?_put_ne (Ne.symm apart), fresh]
  obtain ⟨e₂, joins, healthy₂, grows₂, chain₂, link, queue₂, control₂, counts₂⟩ :=
    chain₁.yields_perform healthy₁ (.copy ⟨0, 0⟩ ⟨1, 1⟩) 0 1 [val] [[acc, sum]]
      (grows₁.representative linked₁ walk at_last rfl) fresh₁ outside rfl (.cons rfl .nil) rfl rfl
  rw [queue₁, ran.queue] at queue₂
  -- Now the sums are computed, one behind the other.
  obtain ⟨_, ended, deeds, _⟩ := yields_drain (Grammar.sound_of_check check_grammar) healthy₂
  have ran' := ran.result
  rw [runRule_eq (r := grammar.rules[0]) rfl
    (performAll_cons zeroed (performAll_cons joins rfl))] at ran'
  cases ran'.symm.trans ended
  rw [drain, if_neg (by simp [queue₂])] at ran'
  have linked₂ := healthy₂.graph.linked
  obtain ⟨node', found, holds', counts⟩ := holds.drained healthy₂ queue₂ chain₂ adds
    (known.grows grows₂ linked₂) (number.grows (grows₁.trans grows₂) linked₂) numerals
    (control₂ ▸ unlocked₁) ran'
  refine ⟨node', found.of_link ran.sound'.graph.linked (deeds.runs.grows.kept link rfl), ?_⟩
  rw [← counts₁, ← counts₂]
  exact ⟨holds', counts⟩

end Running

end GrammarMachine.Samples.Summation
