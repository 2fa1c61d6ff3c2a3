import GrammarMachine.Proofs.Evaluation.History
import GrammarMachine.Proofs.Evaluation.Solutions

/-!
The books of an evaluation that solves a ledger. The host is asked once for each attribute that the
ledger says it is asked for, calls and refusals are counted, and each refusal is reported. Running a
rule enters its actions in the ledger, and keeps solving it.
-/

namespace GrammarMachine

open Graph

/-- What is assumed of a host: the states it is in, what it computes, and a list that it keeps of
what it refused, each item in a wording. -/
structure Interpretation (σ V α : Type) where
  states : σ → Prop
  meaning : Meaning V
  log : σ → List α
  word : Origin × String → α

/-- The host computes as is assumed, and its list grows by what it refuses alone. -/
structure Host.Obeys {σ V α : Type} (h : Host σ V) (M : Interpretation σ V α) : Prop
    extends h.Functional M.states M.meaning where
  executed : ∀ call control s, M.states s → M.log (h.execute call control s).2 = M.log s
  textual : ∀ report control s, M.states s → report.kind ≠ .semantic →
    M.log (h.error report control s).2 = M.log s
  refused : ∀ o reason control s, M.states s →
    M.log (h.error ⟨.semantic, o, h.message s Key.failed.name [reason]⟩ control s).2 =
      M.log s ++ [M.word (o, reason)]

/-- The host was asked for this node. -/
def Graph.UserAt {V : Type} (graph : Graph V) (n : Nat) : Prop :=
  ∃ function value pos error, graph.nodes[n]? = some (.user function value pos error)

namespace Evaluation

variable {σ V α : Type} {g : Grammar} {h : Host σ V} {M : Interpretation σ V α} {D D' : Ledger}
  {L : List (Nat × Option (Origin × String))} {e e' e₁ : Evaluation σ V} {target n : Nat}

/-- The calls made so far, in order: for which node, and what was refused. -/
structure Accounts (M : Interpretation σ V α) (D : Ledger)
    (L : List (Nat × Option (Origin × String))) (e : Evaluation σ V) : Prop where
  nodup : (L.map Prod.fst).Nodup
  users : ∀ {n}, n ∈ L.map Prod.fst ↔ e.graph.UserAt n
  asked : ∀ {n r}, (n, r) ∈ L → D.Asked M.meaning n r
  hardCalls : e.stats.hardCalls = L.length
  semanticErrors : e.stats.semanticErrors = (L.filterMap Prod.snd).length
  reports : M.log e.host = (L.filterMap Prod.snd).map M.word

/-- Nobody is asked, and what is counted stays the same. -/
theorem Accounts.congr (accounts : Accounts M D L e) (more : D.Extends D')
    (users : ∀ n, e'.graph.UserAt n ↔ e.graph.UserAt n)
    (hardCalls : e'.stats.hardCalls = e.stats.hardCalls)
    (semanticErrors : e'.stats.semanticErrors = e.stats.semanticErrors)
    (log : M.log e'.host = M.log e.host) : Accounts M D' L e' where
  nodup := accounts.nodup
  users := accounts.users.trans (users _).symm
  asked mem := (accounts.asked mem).extends more
  hardCalls := hardCalls.trans accounts.hardCalls
  semanticErrors := semanticErrors.trans accounts.semanticErrors
  reports := log.trans accounts.reports

/-- The host is asked for a node it was not asked for. -/
theorem Accounts.call (accounts : Accounts M D L e) {r : Option (Origin × String)}
    (fresh : ¬e.graph.UserAt n) (users : ∀ m, e'.graph.UserAt m ↔ e.graph.UserAt m ∨ m = n)
    (asked : D.Asked M.meaning n r) (hardCalls : e'.stats.hardCalls = e.stats.hardCalls + 1)
    (semanticErrors : e'.stats.semanticErrors = e.stats.semanticErrors + r.toList.length)
    (log : M.log e'.host = M.log e.host ++ r.toList.map M.word) :
    Accounts M D (L ++ [(n, r)]) e' := by
  have refusals : (L ++ [(n, r)]).filterMap Prod.snd = L.filterMap Prod.snd ++ r.toList := by
    rw [List.filterMap_append]
    cases r <;> rfl
  refine ⟨?_, ?_, ?_, ?_, ?_, ?_⟩
  · rw [List.map_append]
    simpa using accounts.nodup.concat fun mem => fresh (accounts.users.1 mem)
  · intro m
    rw [users, ← accounts.users]
    simp
  · intro m s mem
    rcases List.mem_append.1 mem with old | new
    · exact accounts.asked old
    · cases List.mem_singleton.1 new
      exact asked
  · rw [hardCalls, accounts.hardCalls, List.length_append, List.length_singleton]
  · rw [refusals, List.length_append, semanticErrors, accounts.semanticErrors]
  · rw [refusals, List.map_append, log, accounts.reports]

section Attempts

theorem not_userAt {graph : Graph V} {node : Node V} (here : graph.nodes[n]? = some node)
    (other : ∀ function value pos error, node ≠ .user function value pos error) :
    ¬graph.UserAt n := by
  rintro ⟨function, value, pos, error, there⟩
  exact other function value pos error (Option.some.inj (here.symm.trans there))

/-- A node that shows the answer to a call, and is no alias, is one that the host was asked for. -/
theorem userAt_of_shows {graph : Graph V} {node : Node V} {f : UInt32} {pos : Nat}
    {answer : Except String (Produced V)} (shown : graph.Shows n (.ofResult f pos answer))
    (here : graph.nodes[n]? = some node) (plain : node.isLink = false) : graph.UserAt n := by
  obtain ⟨value, pos', error, same⟩ : ∃ value pos' error,
      Snapshot.ofResult f pos answer = .user f value pos' error := by
    cases answer <;> exact ⟨_, _, _, rfl⟩
  rw [same] at shown
  cases shown with
  | leaf walk found _ leaf =>
    cases (representative_of_not_link here plain).symm.trans walk
    cases here.symm.trans found
    cases node <;> cases leaf
    exact ⟨f, value, pos', error, here⟩

theorem Attempted.userAt_iff (attempted : Attempted g h target e e') (other : target ≠ n) :
    e'.graph.UserAt n ↔ e.graph.UserAt n := by
  refine exists_congr fun function => exists_congr fun value => exists_congr fun pos => ?_
  exact exists_congr fun error => attempted.user_iff other rfl

/-- An attempt after which the attribute is not one that the host was asked for. -/
theorem Attempted.accounts_of (attempted : Attempted g h target e e') {state : Pending}
    (here : e.graph.nodes[target]? = some (.pending state)) (after : ¬e'.graph.UserAt target)
    (hardCalls : e'.stats.hardCalls = e.stats.hardCalls)
    (semanticErrors : e'.stats.semanticErrors = e.stats.semanticErrors)
    (log : M.log e'.host = M.log e.host) (accounts : Accounts M D L e) : Accounts M D L e' := by
  refine accounts.congr (.refl D) (fun n => ?_) hardCalls semanticErrors log
  by_cases same : target = n
  · subst same
    exact iff_of_false after (not_userAt here nofun)
  · exact attempted.userAt_iff same

theorem Attempted.userAt_of_call (attempted : Attempted g h target e e')
    (there : e'.graph.UserAt target) : e'.graph.UserAt n ↔ e.graph.UserAt n ∨ n = target := by
  by_cases same : n = target
  · subst same
    exact iff_of_true there (.inr rfl)
  · rw [attempted.userAt_iff (Ne.symm same)]
    simp [same]

theorem Attempted.accounts (attempted : Attempted g h target e e') (obeys : h.Obeys M)
    (inside : M.states e.host) (grounded : e.graph.Grounded)
    (fulfils : Fulfils g M.meaning D e.graph) (accounts : Accounts M D L e) :
    ∃ L', Accounts M D L' e' := by
  have whole := attempted
  cases attempted with
  | idle => exact ⟨L, accounts⟩
  | self => exact ⟨L, accounts⟩
  | join here _ _ _ _ different =>
    refine ⟨L, whole.accounts_of here ?_ rfl rfl rfl accounts⟩
    exact not_userAt
      ((getElem?_put_ne (Ne.symm different)).trans (getElem?_put_self (lt_size here))) nofun
  | link here =>
    refine ⟨L, whole.accounts_of here ?_ rfl rfl rfl accounts⟩
    exact not_userAt (getElem?_put_self (lt_size here)) nofun
  | park here _ _ _ there =>
    refine ⟨L, whole.accounts_of here ?_ rfl rfl rfl accounts⟩
    dsimp only
    split
    · exact not_userAt here nofun
    · obtain ⟨w, still⟩ := (pendingAs_put_waiters there).2 ⟨_, here⟩
      exact not_userAt still nofun
  | @settle e₁ b w o a node here defines copy first known computed =>
    have now : (e.graph.put target node).nodes[target]? = some node :=
      getElem?_put_self (lt_size here)
    obtain ⟨ps, vs, entered, presented, shown⟩ :=
      fulfils.exists_presented grounded here defines.action known
    have answered := fun control => obeys.result ⟨a.function, o.pos, b.params, e.graph⟩ control
      e.host vs inside (snapshots_of_shows grounded shown)
    have solved := presented.imp fun _ _ => fulfils.solves_of_presents
    have executed := fun control =>
      obeys.executed ⟨a.function, o.pos, b.params, e.graph⟩ control e.host inside
    cases computed with
    | term => exact ⟨L, whole.accounts_of here (not_userAt now nofun) rfl rfl rfl accounts⟩
    | null => exact ⟨L, whole.accounts_of here (not_userAt now nofun) rfl rfl rfl accounts⟩
    | value errors hard clean answer =>
      rw [contains_flags shown errors, Bool.or_eq_false_iff] at clean
      have asked := Ledger.Asked.call (n := target) entered hard solved clean.1
      rw [← answered, answer] at asked
      exact ⟨_, accounts.call (not_userAt here nofun)
        (fun m => whole.userAt_of_call ⟨_, _, _, _, now⟩) asked rfl rfl
        ((executed _).trans (List.append_nil _).symm)⟩
    | refusal errors hard clean answer =>
      rw [contains_flags shown errors, Bool.or_eq_false_iff] at clean
      have asked := Ledger.Asked.call (n := target) entered hard solved clean.1
      rw [← answered, answer] at asked
      have stays := obeys.execute ⟨a.function, o.pos, b.params, e.graph⟩ e.control e.host inside
      refine ⟨_, accounts.call (not_userAt here nofun)
        (fun m => whole.userAt_of_call ⟨_, _, _, _, now⟩) asked rfl rfl ?_⟩
      refine (obeys.refused _ _ _ _ stays).trans ?_
      rw [executed]
      rfl

end Attempts

section Hosts

variable {I : σ → Prop} {meaning : Meaning V}

theorem report_of_functional (functional : h.Functional I meaning) (inside : I e.host)
    (kind : ErrorKind) (o : Origin) (m : Message) :
    (e.report h kind o m).control = e.control ∧ I (e.report h kind o m).host := by
  refine ⟨?_, functional.error _ _ _ inside⟩
  simp only [report, functional.silent _ _ _ inside]
  rfl

theorem called_of_functional (functional : h.Functional I meaning) (inside : I e.host)
    (call : Call V) : (e.called h call).control = e.control ∧ I (e.called h call).host := by
  refine ⟨?_, functional.execute _ _ _ inside⟩
  simp only [called, functional.commands _ _ _ inside]
  rfl

theorem Attempted.of_functional (attempted : Attempted g h target e e')
    (functional : h.Functional I meaning) (inside : I e.host) :
    e'.control = e.control ∧ I e'.host := by
  cases attempted with
  | settle _ _ _ _ _ computed =>
    cases computed with
    | term => exact ⟨rfl, inside⟩
    | null => exact ⟨rfl, inside⟩
    | value => exact called_of_functional functional inside _
    | refusal =>
      obtain ⟨control, stays⟩ := called_of_functional functional inside _
      obtain ⟨control', stays'⟩ := report_of_functional functional stays _ _ _
      exact ⟨control'.trans control, stays'⟩
  | _ => exact ⟨rfl, inside⟩

end Hosts

theorem slot_eq (lhs : List Nat) (rhs : List (List Nat)) (s : Slot) (e : Evaluation σ V) :
    e.slot lhs rhs s = (s.find? lhs rhs).elim (e.alloc .null) fun id => (id, e) := by
  unfold slot Slot.find?
  dsimp only
  split
  · next named => rw [named]; rfl
  · next named => rw [named]; rfl

/-- An evaluation that solves a ledger, undisturbed by commands. -/
structure Solving (g : Grammar) (M : Interpretation σ V α) (D : Ledger) (e : Evaluation σ V) :
    Prop where
  sound : e.Sound g
  grounded : e.graph.Grounded
  fulfils : Fulfils g M.meaning D e.graph
  control : e.control = .initial
  host : M.states e.host
  accounts : ∃ L, Accounts M D L e

namespace Solving

/-- What is counted apart from calls and refusals does not matter, nor does a shorter queue. -/
theorem congr (solving : Solving g M D e) (healthy : e'.Sound g) (graph : e'.graph = e.graph)
    (control : e'.control = e.control) (host : e'.host = e.host)
    (hardCalls : e'.stats.hardCalls = e.stats.hardCalls)
    (semanticErrors : e'.stats.semanticErrors = e.stats.semanticErrors) : Solving g M D e' := by
  obtain ⟨_, grounded, fulfils, initial, inside, L, accounts⟩ := solving
  refine ⟨healthy, graph ▸ grounded, graph ▸ fulfils, control.trans initial, host ▸ inside, L, ?_⟩
  exact accounts.congr (.refl D) (fun n => by rw [graph]) hardCalls semanticErrors (by rw [host])

theorem attempted (solving : Solving g M D e) (obeys : h.Obeys M)
    (attempted : Attempted g h target e e') : Solving g M D e' := by
  obtain ⟨healthy, grounded, fulfils, initial, inside, L, accounts⟩ := solving
  have unlocked : e.control.locked = false := by rw [initial]; rfl
  obtain ⟨control, stays⟩ := attempted.of_functional obeys.toFunctional inside
  exact ⟨attempted.sound healthy, attempted.grounded healthy grounded,
    attempted.fulfils obeys.toFunctional inside unlocked healthy grounded fulfils,
    control.trans initial, stays, attempted.accounts obeys inside grounded fulfils accounts⟩

/-- A textual report is none of the business of the books. -/
theorem report (solving : Solving g M D e) (obeys : h.Obeys M) {kind : ErrorKind}
    (textual : kind ≠ .semantic) (o : Origin) (m : Message) :
    Solving g M D (e.report h kind o m) := by
  obtain ⟨healthy, grounded, fulfils, initial, inside, L, accounts⟩ := solving
  obtain ⟨control, stays⟩ := report_of_functional obeys.toFunctional inside kind o m
  refine ⟨(undisturbed_report h kind o m e).sound healthy, grounded, fulfils,
    control.trans initial, stays, L, ?_⟩
  refine accounts.congr (.refl D) (fun _ => .rfl) ?_ ?_ (obeys.textual _ _ _ inside textual)
  · cases kind <;> rfl
  · cases kind with
    | semantic => exact absurd rfl textual
    | _ => rfl

/-- A node joins the graph, and its entry the ledger. -/
theorem alloc (solving : Solving g M D e) (entry : Ledger.Entry) (fresh : entry.Fresh) :
    Solving g M (D ++ [entry]) { e with graph := (e.graph.alloc entry.node).2 } := by
  obtain ⟨healthy, grounded, fulfils, initial, inside, L, accounts⟩ := solving
  have linked := healthy.graph.linked
  refine ⟨healthy.alloc entry.isLink_node ?_ ?_, grounded.alloc linked entry.isLink_node ?_,
    fulfils.alloc grounded linked fresh, initial, inside, L, ?_⟩
  · cases entry <;> nofun
  · cases entry <;> rfl
  · cases entry <;> nofun
  · refine accounts.congr (Ledger.extends_append D _) (fun n => ?_) rfl rfl rfl
    unfold UserAt
    rw [getElem?_alloc]
    split
    · next last =>
      refine iff_of_false ?_ ?_
      · rintro ⟨_, _, _, _, user⟩
        cases entry <;> cases user
      · rintro ⟨_, _, _, _, user⟩
        exact absurd (lt_size user) (last ▸ Nat.lt_irrefl _)
    · rfl

/-- An attribute is defined, and attempted at once. -/
theorem define (solving : Solving g M D e) (obeys : h.Obeys M) {b : Binding} {a : SemanticAction}
    {ps : List (Option Nat)} {w : List Nat} {o : Origin}
    (here : e.graph.nodes[target]? = some (.pending ⟨none, w, o⟩)) (defines : g.Defines b a)
    (inside : ∀ p ∈ b.params, p < e.graph.size) (params : List.Forall₂ D.Stands ps b.params)
    (attempted : Attempted g h target (e.defined target b w o) e') :
    Solving g M (D.define (some target) ⟨a, ps⟩) e' := by
  refine Solving.attempted ?_ obeys attempted
  obtain ⟨healthy, grounded, fulfils, initial, states, L, accounts⟩ := solving
  have ready := healthy.defined here defines inside
  have linked := healthy.graph.linked
  refine ⟨ready, grounded.put_pending linked here (grows_defined here) ready.graph.linked,
    fulfils.define grounded linked here defines.action params, initial, states, L, ?_⟩
  refine accounts.congr (Ledger.extends_define D _ _) (fun n => ?_) rfl rfl rfl
  by_cases same : target = n
  · subst same
    exact iff_of_false (not_userAt (getElem?_put_self (lt_size here)) nofun)
      (not_userAt here nofun)
  · unfold UserAt
    rw [defined, getElem?_put_ne same]

section Rules

variable {lhs : List Nat} {rhs : List (List Nat)}

theorem slot (solving : Solving g M D e) (lhs : List Nat) (rhs : List (List Nat)) (s : Slot) :
    Solving g M (D ++ .absent lhs rhs [s]) (e.slot lhs rhs s).2 ∧
      Ledger.Stands (D ++ .absent lhs rhs [s]) (s.find? lhs rhs) (e.slot lhs rhs s).1 := by
  rw [slot_eq]
  cases named : s.find? lhs rhs with
  | some id =>
    have none : Ledger.absent lhs rhs [s] = [] := by simp [Ledger.absent, Ledger.nulls, named]
    rw [none, List.append_nil]
    exact ⟨solving, rfl⟩
  | none =>
    have one : Ledger.absent lhs rhs [s] = [.null] := by
      simp [Ledger.absent, Ledger.nulls, named]
    rw [one]
    refine ⟨solving.alloc .null Ledger.Entry.fresh_null, ?_⟩
    rw [Ledger.Stands, Evaluation.alloc, Graph.alloc, ← solving.fulfils.size]
    exact List.getElem?_concat_length

theorem slots (solving : Solving g M D e) (lhs : List Nat) (rhs : List (List Nat))
    (ss : List Slot) :
    Solving g M (D ++ .absent lhs rhs ss) (e.slots lhs rhs ss).2 ∧
      List.Forall₂ (Ledger.Stands (D ++ .absent lhs rhs ss)) (ss.map (Slot.find? lhs rhs))
        (e.slots lhs rhs ss).1 := by
  induction ss generalizing D e with
  | nil =>
    have none : Ledger.absent lhs rhs [] = [] := rfl
    rw [none, List.append_nil]
    exact ⟨solving, .nil⟩
  | cons s rest ih =>
    obtain ⟨solving, first⟩ := solving.slot lhs rhs s
    obtain ⟨solving, others⟩ := ih solving
    rw [Ledger.absent_cons, ← List.append_assoc]
    exact ⟨solving, .cons (first.extends (Ledger.extends_append _ _)) others⟩

/-- An action is bound to its target and attempted, if the target has no definition so far. -/
theorem bound (solving : Solving g M D e) (obeys : h.Obeys M) (sound : g.Sound) {b : Binding}
    {a : SemanticAction} {p : Option Nat} {ps : List (Option Nat)} (defines : g.Defines b a)
    (named : D.Stands p target) (there : target < e.graph.size)
    (stands : List.Forall₂ D.Stands ps b.params) (inside : ∀ q ∈ b.params, q < e.graph.size)
    (performed : (do
      let (bound, graph) ← e.graph.bind target b
      if bound then attempt g h target { e with graph } else return { e with graph }) = .ok e') :
    Solving g M (D.define p ⟨a, ps⟩) e' := by
  obtain ⟨node, here⟩ := exists_node there
  by_cases unbound : ∃ w o, node = .pending ⟨none, w, o⟩
  · obtain ⟨w, o, rfl⟩ := unbound
    rw [bind_unbound here] at performed
    have ready := solving.sound.defined here defines inside
    have there : target < (e.defined target b w o).graph.size := by rwa [defined, size_put]
    obtain ⟨_, result, attempted⟩ := yields_attempt (h := h) sound ready there
    cases performed.symm.trans result
    have entered := solving.fulfils.undefined here
    cases p with
    | none => cases entered.symm.trans named
    | some n =>
      cases named
      exact solving.define obeys here defines inside stands attempted
  · rw [bind_other here fun w o same => unbound ⟨w, o, same⟩] at performed
    cases performed
    cases p with
    | none => exact solving
    | some n =>
      cases named
      rw [Ledger.define_eq_self]
      · exact solving
      · intro o entered
        cases solving.fulfils.keeps entered with
        | undefined pending =>
          obtain ⟨w, pending⟩ := pending
          exact unbound ⟨w, o, Option.some.inj (here.symm.trans pending)⟩

/-- An action is entered in the ledger, and what it defines is attempted. -/
theorem perform (solving : Solving g M D e) (obeys : h.Obeys M) (sound : g.Sound)
    (covers : e.graph.Covers lhs rhs) {rule : UInt32} {index : Nat} {action : SemanticAction}
    (there : g.action? ⟨rule, index, []⟩ = some action)
    (performed : e.perform g h rule lhs rhs index action = .ok e') :
    Solving g M (D.perform lhs rhs action) e' := by
  obtain ⟨⟨target, e₁⟩, first⟩ : ∃ found, e.slot lhs rhs action.target = found := ⟨_, rfl⟩
  obtain ⟨⟨params, e₂⟩, second⟩ : ∃ found, e₁.slots lhs rhs action.params = found := ⟨_, rfl⟩
  obtain ⟨run₁, target_inside⟩ := deeds_slot (h := h) (g := g) covers first
  obtain ⟨run₂, length, params_inside⟩ :=
    deeds_slots (h := h) (g := g) (covers.grows run₁.runs.grows) second
  have target_inside := Nat.lt_of_lt_of_le target_inside run₂.runs.grows.size
  obtain ⟨solving, named⟩ := solving.slot lhs rhs action.target
  rw [first] at solving named
  obtain ⟨solving, stands⟩ := solving.slots lhs rhs action.params
  have named := named.extends (Ledger.extends_append _ (.absent lhs rhs action.params))
  rw [second] at solving stands
  unfold Ledger.perform
  rw [Ledger.absent_cons, ← List.append_assoc]
  unfold Evaluation.perform at performed
  rw [first] at performed
  dsimp only at performed
  rw [second] at performed
  dsimp only at performed named
  let e₃ : Evaluation σ V := { e₂ with stats := { e₂.stats with actions := e₂.stats.actions + 1 } }
  have counted : Solving g M _ e₃ :=
    solving.congr ⟨solving.sound.graph, solving.sound.queue⟩ rfl rfl rfl rfl rfl
  have defines : g.Defines ⟨rule, index, params⟩ action := ⟨there, length⟩
  exact counted.bound obeys sound defines named target_inside stands params_inside performed

theorem performAll (solving : Solving g M D e) (obeys : h.Obeys M) (sound : g.Sound)
    (covers : e.graph.Covers lhs rhs) {rule : UInt32} {index : Nat} {actions : List SemanticAction}
    (there : ∀ i action, actions[i]? = some action →
      g.action? ⟨rule, index + i, []⟩ = some action)
    (performed : performAll g h rule lhs rhs index actions e = .ok e') :
    Solving g M (actions.foldl (Ledger.perform lhs rhs) D) e' := by
  induction actions generalizing index D e with
  | nil =>
    cases performed
    exact solving
  | cons action rest ih =>
    obtain ⟨e₁, first, others⟩ := bind_eq_ok_iff.1 performed
    have action_there : g.action? ⟨rule, index, []⟩ = some action := there 0 action rfl
    obtain ⟨_, result, run⟩ := yields_perform (h := h) sound solving.sound covers action_there
    cases first.symm.trans result
    refine ih (solving.perform obeys sound covers action_there first)
      (covers.grows run.runs.grows) ?_ others
    intro i other at_i
    rw [Nat.add_right_comm]
    exact there (i + 1) other at_i

theorem drainFrom (solving : Solving g M D e) (obeys : h.Obeys M) (sound : g.Sound) {n : Nat}
    (drained : drainFrom g h n e = .ok e') : Solving g M D e' := by
  induction n generalizing e with
  | zero =>
    obtain ⟨graph, queue, control, host, stats⟩ := e
    cases queue with
    | nil =>
      cases drained
      exact solving
    | cons id rest => cases drained
  | succ n ih =>
    cases queued : e.queue with
    | nil =>
      rw [drainFrom_nil queued] at drained
      cases drained
      exact solving
    | cons id rest =>
      rw [drainFrom_cons queued] at drained
      obtain ⟨e₁, first, others⟩ := bind_eq_ok_iff.1 drained
      have ready := solving.sound.taken queued
      have inside := solving.sound.queue id (queued ▸ List.mem_cons_self)
      obtain ⟨_, result, attempted⟩ := yields_attempt (h := h) sound ready inside
      cases first.symm.trans result
      have taken : Solving g M D (e.taken rest) := solving.congr ready rfl rfl rfl rfl rfl
      exact ih (taken.attempted obeys attempted) others

/-- A rule enters its actions in the ledger, in order. -/
theorem runRule (solving : Solving g M D e) (obeys : h.Obeys M) (sound : g.Sound)
    (covers : e.graph.Covers lhs rhs) {rule : UInt32} {r : Rule} (found : g.rule rule = .ok r)
    (ran : runRule g h rule lhs rhs e = .ok e') :
    Solving g M (r.actions.toList.foldl (Ledger.perform lhs rhs) D) e' := by
  obtain ⟨_, same, rest⟩ := bind_eq_ok_iff.1 ran
  cases found.symm.trans same
  obtain ⟨e₁, performed, drained⟩ := bind_eq_ok_iff.1 rest
  have there := fetch_eq_ok_iff.1 found
  have named : ∀ i action, r.actions.toList[i]? = some action →
      g.action? ⟨rule, 0 + i, []⟩ = some action := by
    intro i action at_i
    simp only [Grammar.action?, there, Option.bind_some, Nat.zero_add]
    rwa [Array.getElem?_toList] at at_i
  have solving := solving.performAll obeys sound covers named performed
  unfold drain at drained
  split at drained
  · cases drained
    exact solving
  · exact solving.drainFrom obeys sound drained

end Rules

end Solving

end Evaluation

end GrammarMachine
