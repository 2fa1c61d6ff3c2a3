import GrammarMachine.Proofs.Evaluation.Waiting
import GrammarMachine.Proofs.Parse.Clean
import GrammarMachine.Samples.Summation

/-!
Sums that wait. The accumulator of a list is not known before the rule around the list is reduced,
so each sum waits for the one in front of it, and the first of them for the accumulator. A longer
list puts one more sum in front of this chain; its own sum is an alias for the last one.
-/

namespace GrammarMachine.Samples.Summation

open Evaluation

/-- What is told of a sum, apart from its value. -/
structure Tally where
  deferred : Nat
  replays : Nat
  hardCalls : Nat
  semanticErrors : Nat
  trace : List (UInt32 × Int)

def tally (e : Evaluation Machine Int) : Tally :=
  ⟨e.stats.deferred, e.stats.replays, e.stats.hardCalls, e.stats.semanticErrors,
    e.host.trace.toList⟩

/-- What adds the number behind `q` to the sum `n`. -/
structure Adds (b : Binding) (n q : Nat) : Prop where
  action : ∃ target params, grammar.action? b = some (.call add target params)
  params : b.params = [n, q]

/-- Sums of which each waits for the one in front of it, to which it adds one more number. The first
one is defined by `b`, and nobody waits for the last one. -/
inductive Chain (graph : Graph Int) (last : Nat) :
    Option Binding → List Nat → List String → Prop
  | ended {b : Option Binding} {o : Origin}
      (here : graph.nodes[last]? = some (.pending ⟨b, [], o⟩)) : Chain graph last b [last] []
  | more {b : Option Binding} {b' : Binding} {n m q pos : Nat} {o : Origin} {ns : List Nat}
      {t : String} {ts : List String} (here : graph.nodes[n]? = some (.pending ⟨b, [m], o⟩))
      (adds : Adds b' n q) (number : graph.Resolves q (.text t pos false)) (new : n ∉ m :: ns)
      (rest : Chain graph last (some b') (m :: ns) ts) :
      Chain graph last b (n :: m :: ns) (t :: ts)

/-- The sums of a list, from its accumulator on; the sum of the list is the last of them. -/
def Folded (graph : Graph Int) (acc sum : Nat) (ts : List String) : Prop :=
  ∃ ns last, Chain graph last none (acc :: ns) ts ∧ graph.representative sum = .ok last

namespace Chain

variable {graph graph' : Graph Int} {last n : Nat} {b : Option Binding} {ns : List Nat}
  {ts : List String}

theorem congr (chain : Chain graph last b ns ts)
    (same : ∀ n ∈ ns, graph'.nodes[n]? = graph.nodes[n]?) (grows : graph.Grows graph')
    (linked : graph'.Linked) : Chain graph' last b ns ts := by
  induction chain with
  | ended here => exact .ended ((same _ (List.mem_singleton_self _)).trans here)
  | more here adds number new _ ih =>
    obtain ⟨first, others⟩ := List.forall_mem_cons.1 same
    exact .more (first.trans here) adds (number.grows grows linked) new (ih others)

theorem here (chain : Chain graph last b (n :: ns) ts) :
    (∃ o, graph.nodes[n]? = some (.pending ⟨b, ns.head?.toList, o⟩)) ∧ n ∉ ns := by
  cases chain with
  | ended here => exact ⟨⟨_, here⟩, List.not_mem_nil⟩
  | more here _ _ new => exact ⟨⟨_, here⟩, new⟩

/-- The first sum of a chain is given another definition. -/
theorem rebind {b' : Option Binding} {o : Origin} (chain : Chain graph last b (n :: ns) ts)
    (here : graph'.nodes[n]? = some (.pending ⟨b', ns.head?.toList, o⟩))
    (same : ∀ m ∈ ns, graph'.nodes[m]? = graph.nodes[m]?) (grows : graph.Grows graph')
    (linked : graph'.Linked) : Chain graph' last b' (n :: ns) ts := by
  cases chain with
  | ended => exact .ended here
  | more _ adds number new rest =>
    exact .more here adds (number.grows grows linked) new (rest.congr same grows linked)

theorem pending (chain : Chain graph last b ns ts) :
    ∀ n ∈ ns, ∃ state, graph.nodes[n]? = some (.pending state) := by
  induction chain with
  | ended here => exact List.forall_mem_singleton.2 ⟨_, here⟩
  | more here _ _ _ _ ih => exact List.forall_mem_cons.2 ⟨⟨_, here⟩, ih⟩

/-- All sums but the first one are bound, and an attribute that is neither bound nor waited for is
none of them. -/
theorem not_mem_of_fresh {k : Nat} {o : Origin} (chain : Chain graph last b ns ts)
    (either : b ≠ none ∨ ts ≠ [])
    (fresh : graph.nodes[k]? = some (.pending ⟨none, [], o⟩)) : k ∉ ns := by
  induction chain with
  | ended here =>
    rw [List.mem_singleton]
    rintro rfl
    cases here.symm.trans fresh
    simp at either
  | more here _ _ _ _ ih =>
    rw [List.mem_cons, not_or]
    refine ⟨?_, ih (.inl (Option.some_ne_none _))⟩
    rintro rfl
    cases here.symm.trans fresh

theorem last_mem (chain : Chain graph last b ns ts) : last ∈ ns := by
  induction chain with
  | ended => exact List.mem_singleton_self _
  | more _ _ _ _ _ ih => exact List.mem_cons_of_mem _ ih

theorem last_pending (chain : Chain graph last b ns ts) :
    ∃ state, graph.nodes[last]? = some (.pending state) :=
  chain.pending last chain.last_mem

/-- A new accumulator in front of a chain, to which the old one is to add a number. -/
theorem extend {acc acc' q pos : Nat} {o o' : Origin} {t : String} {b : Binding}
    (chain : Chain graph last none (acc :: ns) ts) (adds : Adds b acc' q)
    (number : graph.Resolves q (.text t pos false)) (inside : acc' < graph.size)
    (outside : acc' ∉ acc :: ns) (same : graph' = (graph.put acc
      (.pending ⟨some b, ns.head?.toList, o'⟩)).put acc' (.pending ⟨none, [acc], o⟩))
    (grows : graph.Grows graph') (linked : graph'.Linked) :
    Chain graph' last none (acc' :: acc :: ns) (t :: ts) := by
  have apart : acc' ≠ acc := fun same => outside (same ▸ List.mem_cons_self)
  obtain ⟨⟨_, here⟩, new⟩ := chain.here
  have first : graph'.nodes[acc']? = some (.pending ⟨none, [acc], o⟩) := by
    rw [same, Graph.getElem?_put_self (by simpa using inside)]
  have second : graph'.nodes[acc]? = some (.pending ⟨some b, ns.head?.toList, o'⟩) := by
    rw [same, Graph.getElem?_put_ne apart, Graph.getElem?_put_self (Graph.lt_size here)]
  refine .more first adds (number.grows grows linked) outside
    (chain.rebind second (fun k mem => ?_) grows linked)
  have one : acc' ≠ k := fun same => outside (same ▸ List.mem_cons_of_mem _ mem)
  have two : acc ≠ k := fun same => new (same ▸ mem)
  rw [same, Graph.getElem?_put_ne one, Graph.getElem?_put_ne two]

end Chain

section Rules

variable {e e' : Evaluation Machine Int} {o : Origin} {acc sum acc' sum' q pos : Nat}
  {t t' : String} {ts : List String} {attrs : List Nat}

/-- Nothing has been done but to put off one addition. -/
structure Deferred (e e' : Evaluation Machine Int) : Prop where
  control : e'.control = e.control
  tally : tally e' = { tally e with deferred := e.stats.deferred + 1 }

/-- In a list of one number, the sum waits for the accumulator. -/
theorem folded_one (fresh : e.graph.nodes[acc]? = some (.pending ⟨none, [], o⟩))
    (fresh' : e.graph.nodes[sum]? = some (.pending ⟨none, [], o⟩)) (different : acc ≠ sum)
    (number : e.graph.Resolves q (.text t pos false))
    (ran : Ran grammar host 2 [acc, sum] [[q]] e e') :
    Folded e'.graph acc sum [t] ∧ Deferred e e' := by
  obtain ⟨_, parks, rfl, _⟩ := yields_perform_park (h := host)
    (Grammar.sound_of_check check_grammar) ran.sound (.call add ⟨0, 1⟩ [⟨0, 0⟩, ⟨1, 0⟩]) 2 0
    [acc, sum] [[q]] rfl (.cons rfl (.cons rfl .nil)) fresh'
    (List.forall_mem_singleton.2 number.lt_size) rfl rfl fresh (Ne.symm different)
    List.not_mem_nil
  have number := number.grows ran.grows ran.sound'.graph.linked
  obtain rfl := ran.eq_of_performed rfl (performAll_cons parks rfl) ran.queue
  have inside : acc < (e.graph.put sum (.pending ⟨some ⟨2, 0, [acc, q]⟩, [], o⟩)).size := by
    simpa using Graph.lt_size fresh
  have last : ((e.graph.put sum (.pending ⟨some ⟨2, 0, [acc, q]⟩, [], o⟩)).put acc
      (.pending ⟨none, [sum], o⟩)).nodes[sum]? =
        some (.pending ⟨some ⟨2, 0, [acc, q]⟩, [], o⟩) := by
    rw [Graph.getElem?_put_ne different, Graph.getElem?_put_self (Graph.lt_size fresh')]
  refine ⟨⟨[sum], sum, ?_, Graph.representative_of_not_link last rfl⟩, rfl, rfl⟩
  exact .more (Graph.getElem?_put_self inside) ⟨⟨_, _, rfl⟩, rfl⟩ number (by simpa using different)
    (.ended last)

/-- An attribute outside of a chain becomes an alias for the last sum. -/
theorem Chain.yields_perform {last target : Nat} {b : Option Binding} {ns : List Nat}
    (chain : Chain e.graph last b ns ts) (healthy : e.Sound grammar) (a : SemanticAction)
    (id : UInt32) (index : Nat) (lhs : List Nat) (rhs : List (List Nat))
    (walk : e.graph.representative sum = .ok last)
    (fresh : e.graph.nodes[target]? = some (.pending ⟨none, [], o⟩)) (outside : target ∉ ns)
    (named : a.target.find? lhs rhs = some target)
    (params : List.Forall₂ (fun s p => s.find? lhs rhs = some p) a.params [sum])
    (action : grammar.action? ⟨id, index, [sum]⟩ = some a) (copy : a.isCopy = true) :
    Yields (e.perform grammar host id lhs rhs index a) fun e' =>
      e'.Sound grammar ∧ e.graph.Grows e'.graph ∧ Chain e'.graph last b ns ts ∧
        e'.graph.nodes[target]? = some (.link last) ∧ e'.queue = e.queue ∧
        e'.control = e.control ∧ tally e' = tally e := by
  have others : ∀ k ∈ ns, target ≠ k := fun k mem same => outside (same ▸ mem)
  obtain ⟨state, at_last⟩ := chain.last_pending
  obtain ⟨e', joins, rfl, healthy', grows⟩ := yields_perform_join (h := host)
    (Grammar.sound_of_check check_grammar) healthy a id index lhs rhs named params fresh action
    copy walk
    (others last chain.last_mem) at_last
  refine .of_eq joins ⟨healthy', grows, ?_, ?_, rfl, rfl, rfl⟩
  · exact chain.congr (fun k mem => Graph.getElem?_put_ne (others k mem)) grows
      healthy'.graph.linked
  · exact Graph.getElem?_put_self (Graph.lt_size fresh)

/-- One more number in front of a list: the accumulator of the list waits for the new one, and the
sum of the list is that of the longer list. -/
theorem Folded.more (folded : Folded e.graph acc sum (t :: ts))
    (fresh : e.graph.nodes[acc']? = some (.pending ⟨none, [], o⟩))
    (fresh' : e.graph.nodes[sum']? = some (.pending ⟨none, [], o⟩)) (different : acc' ≠ sum')
    (number : e.graph.Resolves q (.text t' pos false))
    (ran : Ran grammar host 1 [acc', sum'] [[q], attrs, [acc, sum]] e e') :
    Folded e'.graph acc' sum' (t' :: t :: ts) ∧ Deferred e e' := by
  obtain ⟨ns, last, chain, walk⟩ := folded
  obtain ⟨⟨o', here⟩, _⟩ := chain.here
  have outside := chain.not_mem_of_fresh (.inr (List.cons_ne_nil _ _)) fresh
  have outside' := chain.not_mem_of_fresh (.inr (List.cons_ne_nil _ _)) fresh'
  have apart : acc ≠ acc' := fun same => outside (same ▸ List.mem_cons_self)
  have apart' : acc ≠ sum' := fun same => outside' (same ▸ List.mem_cons_self)
  obtain ⟨e₁, parks, same, healthy₁, grows₁⟩ := yields_perform_park (h := host)
    (Grammar.sound_of_check check_grammar) ran.sound (.call add ⟨3, 0⟩ [⟨0, 0⟩, ⟨1, 0⟩]) 1 0
    [acc', sum'] [[q], attrs, [acc, sum]] rfl (.cons rfl (.cons rfl .nil)) here
    (List.forall_mem_singleton.2 number.lt_size) rfl rfl fresh apart List.not_mem_nil
  have linked₁ := healthy₁.graph.linked
  have graph₁ := congrArg Evaluation.graph same
  have chain₁ := chain.extend ⟨⟨_, _, rfl⟩, rfl⟩ number (Graph.lt_size fresh) outside graph₁ grows₁
    linked₁
  -- Now the accumulator is bound, and the copy is still to come.
  obtain ⟨state, at_last⟩ := chain₁.last_pending
  have fresh₁ : e₁.graph.nodes[sum']? = some (.pending ⟨none, [], o⟩) := by
    rw [graph₁, Graph.getElem?_put_ne different, Graph.getElem?_put_ne apart', fresh']
  obtain ⟨e₂, joins, healthy₂, _, chain₂, link, queue, control, counts⟩ := chain₁.yields_perform
    healthy₁ (.copy ⟨0, 1⟩ ⟨3, 1⟩) 1 1 [acc', sum'] [[q], attrs, [acc, sum]]
    (grows₁.representative linked₁ walk at_last rfl) fresh₁
    (List.not_mem_cons_of_ne_of_not_mem (Ne.symm different) outside') rfl (.cons rfl .nil) rfl rfl
  obtain rfl := ran.eq_of_performed rfl (performAll_cons parks (performAll_cons joins rfl))
    (by rw [queue, same, ran.queue])
  obtain ⟨state, at_last⟩ := chain₂.last_pending
  refine ⟨⟨_, last, chain₂, Graph.representative_of_link healthy₂.graph.linked link
    (Graph.representative_of_not_link at_last rfl)⟩, ?_, ?_⟩
  · rw [control, same]
  · rw [counts, same]
    rfl

end Rules

end GrammarMachine.Samples.Summation
