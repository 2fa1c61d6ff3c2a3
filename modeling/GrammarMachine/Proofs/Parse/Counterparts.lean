import GrammarMachine.Proofs.Evaluation.Accounts
import GrammarMachine.Proofs.Parse.Independence
import GrammarMachine.Proofs.Parse.WakeUps

/-!
Parses that keep counterparts of one ledger. Two grammars that differ in semantic actions may enter
the same equations, or equations that correspond entry by entry; then their parses do so all along,
and each shows the solutions of its own ledger in the end.
-/

namespace GrammarMachine

open Evaluation Config

variable {σ V α : Type} {g g₁ g₂ : Grammar} {h : Host σ V} {M : Interpretation σ V α}
  {D : Ledger} {e e' : Evaluation σ V} {A : List (List Nat)}

/-- Between two steps of a parse: the ledger is solved as far as can be. -/
structure Running (g : Grammar) (M : Interpretation σ V α) (D : Ledger) (e : Evaluation σ V) :
    Prop where
  solving : Solving g M D e
  tracked : Tracked g none e
  queue : e.queue = []

namespace Running

theorem initial (g : Grammar) {host : σ} (inside : M.states host) (none : M.log host = []) :
    Running g M [] (.initial .initial host : Evaluation σ V) := by
  have empty : ∀ {n : Nat} {node : Node V},
      (Graph.empty : Graph V).nodes[n]? ≠ some node := fun there => nomatch Graph.lt_size there
  refine ⟨⟨sound_initial g _ _, Graph.grounded_empty, ⟨rfl, nofun, ?_, ?_⟩, rfl, inside, [], ?_⟩,
    tracked_initial g _ _, rfl⟩
  · intro D' n rep v _ walk
    exact nomatch Graph.lt_size_of_representative walk
  · intro n v shown
    exact nomatch shown.known.lt_size
  · refine ⟨List.nodup_nil, ⟨nofun, ?_⟩, nofun, rfl, rfl, none⟩
    rintro ⟨_, _, _, _, there⟩
    exact absurd there empty

/-- What is counted apart from calls, refusals and waiting does not matter. -/
theorem congr (running : Running g M D e) (same : e.Undisturbed e')
    (control : e'.control = e.control) (host : e'.host = e.host)
    (hardCalls : e'.stats.hardCalls = e.stats.hardCalls)
    (semanticErrors : e'.stats.semanticErrors = e.stats.semanticErrors) : Running g M D e' where
  solving := running.solving.congr (same.sound running.solving.sound) same.graph control host
    hardCalls semanticErrors
  tracked := same.tracked running.tracked
  queue := same.queue.trans running.queue

theorem report (running : Running g M D e) (obeys : h.Obeys M) {kind : ErrorKind}
    (textual : kind ≠ .semantic) (o : Origin) (m : Message) :
    Running g M D (e.report h kind o m) where
  solving := running.solving.report obeys textual o m
  tracked := (undisturbed_report h kind o m e).tracked running.tracked
  queue := (undisturbed_report h kind o m e).queue.trans running.queue

theorem alloc (running : Running g M D e) (entry : Ledger.Entry) (fresh : entry.Fresh) :
    Running g M (D ++ [entry]) { e with graph := (e.graph.alloc entry.node).2 } := by
  refine ⟨running.solving.alloc entry fresh, ?_, running.queue⟩
  refine running.tracked.alloc running.solving.sound entry.isLink_node ?_ ?_
  · cases entry <;> nofun
  · cases entry <;> rfl

/-- Nodes join the graph, numbered on from the last one. -/
theorem allocMany (running : Running g M D e) (entry : Ledger.Entry) (fresh : entry.Fresh)
    (k : Nat) :
    (e.graph.allocMany entry.node k).1 = List.range' D.length k ∧
      Running g M (D ++ List.replicate k entry)
        { e with graph := (e.graph.allocMany entry.node k).2 } := by
  induction k generalizing D e with
  | zero =>
    rw [List.replicate_zero, List.append_nil]
    exact ⟨rfl, running⟩
  | succ k ih =>
    have first := running.alloc entry fresh
    obtain ⟨ids, later⟩ := ih first
    rw [List.append_assoc, List.singleton_append] at later
    rw [List.length_append, List.length_singleton] at ids
    refine ⟨?_, later⟩
    rw [Graph.allocMany, List.range'_succ, ← ids, running.solving.fulfils.size]
    rfl

/-- The entry of a shifted token. -/
def tokenEntries (t : Token) : Ledger :=
  match t.text with
  | some text => [.text text t.origin.pos t.error]
  | none => []

theorem shifting (running : Running g M D e) (t : Token) :
    (e.shifting t).1 = List.range' D.length (tokenEntries t).length ∧
      Running g M (D ++ tokenEntries t) (e.shifting t).2 := by
  unfold Evaluation.shifting tokenAttrs tokenEntries
  cases t.text with
  | none =>
    rw [List.append_nil]
    exact ⟨rfl, running.congr ⟨rfl, rfl, rfl, rfl⟩ rfl rfl rfl rfl⟩
  | some text =>
    have joined := running.alloc (.text text t.origin.pos t.error) nofun
    refine ⟨?_, joined.congr ⟨rfl, rfl, rfl, rfl⟩ rfl rfl rfl rfl⟩
    rw [running.solving.fulfils.size]
    rfl

theorem resuming (running : Running g M D e) (n : Nonterminal) :
    (e.resuming n).1 = List.range' D.length n.attributeCount ∧
      Running g M (D ++ List.replicate n.attributeCount .null) (e.resuming n).2 := by
  obtain ⟨ids, later⟩ := running.allocMany .null Ledger.Entry.fresh_null n.attributeCount
  exact ⟨ids, later.congr ⟨rfl, rfl, rfl, rfl⟩ rfl rfl rfl rfl⟩

theorem reducing (running : Running g M D e) (o : Origin) (n : Nonterminal) :
    (e.reducing o n).1 = List.range' D.length n.attributeCount ∧
      Running g M (D ++ List.replicate n.attributeCount (.declared o none))
        (e.reducing o n).2 := by
  obtain ⟨ids, later⟩ := running.allocMany (.declared o none) nofun n.attributeCount
  exact ⟨ids, later.congr ⟨rfl, rfl, rfl, rfl⟩ rfl rfl rfl rfl⟩

/-- A rule runs to its end. -/
theorem runRule (running : Running g M D e) (obeys : h.Obeys M) (sound : g.Sound) {lhs : List Nat}
    {rhs : List (List Nat)} (inside : ∀ n ∈ (lhs :: rhs).flatten, n < D.length) {id : UInt32}
    {r : Rule} (found : g.rule id = .ok r) (ran : runRule g h id lhs rhs e = .ok e') :
    D.length ≤ (r.actions.toList.foldl (Ledger.perform lhs rhs) D).length ∧
      Running g M (r.actions.toList.foldl (Ledger.perform lhs rhs) D) e' := by
  have size := running.solving.fulfils.size
  have covers : e.graph.Covers lhs rhs := by
    rw [size] at inside
    constructor
    · exact fun n mem => inside n (List.mem_flatten.2 ⟨lhs, List.mem_cons_self, mem⟩)
    · exact fun attrs among n mem =>
        inside n (List.mem_flatten.2 ⟨attrs, List.mem_cons_of_mem lhs among, mem⟩)
  have there := (Array.getElem?_eq_some_iff.1 (fetch_eq_ok_iff.1 found)).1
  obtain ⟨_, result, deeds, queue⟩ :=
    yields_runRule (h := h) sound running.solving.sound covers there
  cases ran.symm.trans result
  have run := deeds.runs
  have solving := running.solving.runRule obeys sound covers found ran
  refine ⟨?_, solving, run.tracked running.solving.sound running.tracked, queue⟩
  rw [size, solving.fulfils.size]
  exact run.grows.size

end Running

/-- The attributes on a stack are different nodes of the graph. -/
structure Distinct (A : List (List Nat)) (size : Nat) : Prop where
  nodup : A.flatten.Nodup
  inside : ∀ n ∈ A.flatten, n < size

namespace Distinct

variable {size size' : Nat}

theorem mono (distinct : Distinct A size) (more : size ≤ size') : Distinct A size' :=
  ⟨distinct.nodup, fun n mem => Nat.lt_of_lt_of_le (distinct.inside n mem) more⟩

theorem of_append {A' : List (List Nat)} (distinct : Distinct (A ++ A') size) :
    Distinct A size ∧ Distinct A' size := by
  obtain ⟨nodup, inside⟩ := distinct
  rw [List.flatten_append] at nodup inside
  exact ⟨⟨nodup.of_append_left, fun n mem => inside n (List.mem_append_left _ mem)⟩,
    ⟨nodup.of_append_right, fun n mem => inside n (List.mem_append_right _ mem)⟩⟩

theorem perm {A' : List (List Nat)} (distinct : Distinct A size) (perm : A'.Perm A) :
    Distinct A' size :=
  ⟨perm.flatten.nodup_iff.2 distinct.nodup, fun n mem =>
    distinct.inside n (perm.flatten.mem_iff.1 mem)⟩

theorem drop (distinct : Distinct A size) (n : Nat) : Distinct (A.drop n) size := by
  rw [← List.take_append_drop n A] at distinct
  exact distinct.of_append.2

theorem take_reverse (distinct : Distinct A size) (n : Nat) :
    Distinct (A.take n).reverse size := by
  rw [← List.take_append_drop n A] at distinct
  exact distinct.of_append.1.perm (List.reverse_perm _)

/-- New nodes differ from all others. -/
theorem cons_range' (distinct : Distinct A size) (k : Nat) :
    Distinct (List.range' size k :: A) (size + k) := by
  refine ⟨?_, fun n mem => ?_⟩
  · rw [List.flatten_cons]
    exact Graph.nodup_range'_append distinct.nodup distinct.inside k
  · rw [List.flatten_cons, List.mem_append] at mem
    rcases mem with new | old
    · exact (List.mem_range'_1.1 new).2
    · exact Nat.lt_of_lt_of_le (distinct.inside n old) (Nat.le_add_right size k)

end Distinct

/-- Grammars that enter counterparts: what `t` makes of the entries of one is entered by the other,
rule by rule. -/
structure Counterparts (t : Ledger.Entry → Ledger.Entry) (g₁ g₂ : Grammar) : Prop where
  skeleton : g₁.skeleton = g₂.skeleton
  nonterminals : g₂.nonterminals = g₁.nonterminals
  fixed : ∀ {entry : Ledger.Entry}, entry.Fresh → t entry = entry
  rules : ∀ {id r₁ r₂}, g₁.rule id = .ok r₁ → g₂.rule id = .ok r₂ →
    ∀ {lhs : List Nat} {rhs : List (List Nat)}, (lhs :: rhs).flatten.Nodup → ∀ D : Ledger,
      (r₁.actions.toList.foldl (Ledger.perform lhs rhs) D).map t =
        r₂.actions.toList.foldl (Ledger.perform lhs rhs) (D.map t)

/-- The action belongs to a rule of the grammar. -/
def Grammar.HasAction (g : Grammar) (a : SemanticAction) : Prop :=
  ∃ r ∈ g.rules, a ∈ r.actions

/-- Two evaluations that solve counterparts. -/
structure Paired (t : Ledger.Entry → Ledger.Entry) (g₁ g₂ : Grammar) (M : Interpretation σ V α)
    (A₁ : List (List Nat)) (e₁ : Evaluation σ V) (A₂ : List (List Nat)) (e₂ : Evaluation σ V) :
    Prop where
  attrs : A₂ = A₁
  running : ∃ D : Ledger, Distinct A₁ D.length ∧ D.Uses g₁.HasAction ∧ Running g₁ M D e₁ ∧
    Running g₂ M (D.map t) e₂

section Pairs

variable {t : Ledger.Entry → Ledger.Entry} {e₁ e₂ : Evaluation σ V}

theorem Counterparts.map_append (counterparts : Counterparts t g₁ g₂) (D : Ledger) {new : Ledger}
    (fresh : ∀ entry ∈ new, entry.Fresh) :
    (D ++ new).map t = D.map t ++ new := by
  have same : new.map t = new.map id :=
    List.map_congr_left fun entry mem => counterparts.fixed (fresh entry mem)
  rw [List.map_append, same, List.map_id]

/-- Nodes join both graphs. -/
theorem Counterparts.paired_cons (counterparts : Counterparts t g₁ g₂)
    (distinct : Distinct A D.length) (uses : D.Uses g₁.HasAction) {new : Ledger}
    (fresh : ∀ entry ∈ new, entry.Fresh)
    (later₁ : Running g₁ M (D ++ new) e₁) (later₂ : Running g₂ M (D.map t ++ new) e₂)
    {ids₁ ids₂ : List Nat} (first : ids₁ = List.range' D.length new.length)
    (second : ids₂ = List.range' (D.map t).length new.length) :
    Paired t g₁ g₂ M (ids₁ :: A) e₁ (ids₂ :: A) e₂ := by
  rw [List.length_map] at second
  rw [← counterparts.map_append D fresh] at later₂
  rw [first, second]
  refine ⟨rfl, D ++ new, ?_, uses.append fresh, later₁, later₂⟩
  rw [List.length_append]
  exact distinct.cons_range' new.length

theorem fresh_replicate (entry : Ledger.Entry) (fresh : entry.Fresh) (k : Nat) :
    ∀ other ∈ List.replicate k entry, other.Fresh := by
  intro other mem
  rw [(List.mem_replicate.1 mem).2]
  exact fresh

theorem closed_paired (counterparts : Counterparts t g₁ g₂) (obeys : h.Obeys M)
    (sound₁ : g₁.Sound) (sound₂ : g₂.Sound) : Closed g₁ h g₂ h (Paired t g₁ g₂ M) where
  stopped := by
    rintro A₁ e₁ _ e₂ ⟨rfl, D, _, _, running₁, running₂⟩
    rw [running₁.solving.control, running₂.solving.control]
  lexical := by
    rintro A₁ e₁ _ e₂ o m ⟨rfl, D, distinct, uses, running₁, running₂⟩
    exact ⟨rfl, D, distinct, uses, running₁.report obeys (by decide) o m,
      running₂.report obeys (by decide) o m⟩
  syntactic := by
    rintro A₁ e₁ _ e₂ state token ⟨rfl, D, distinct, uses, running₁, running₂⟩
    exact ⟨rfl, D, distinct, uses, running₁.report obeys (by decide) _ _,
      running₂.report obeys (by decide) _ _⟩
  drop := by
    rintro A₁ e₁ _ e₂ n ⟨rfl, D, distinct, uses, running₁, running₂⟩
    exact ⟨rfl, D, distinct.drop n, uses, running₁, running₂⟩
  shift := by
    rintro A₁ e₁ _ e₂ token ⟨rfl, D, distinct, uses, running₁, running₂⟩
    obtain ⟨ids₁, later₁⟩ := running₁.shifting token
    obtain ⟨ids₂, later₂⟩ := running₂.shifting token
    refine counterparts.paired_cons distinct uses ?_ later₁ later₂ ids₁ ids₂
    unfold Running.tokenEntries
    cases token.text with
    | none => nofun
    | some text => exact fresh_replicate _ (by nofun) 1
  resume := by
    rintro A₁ e₁ _ e₂ id n₁ n₂ found₁ found₂ ⟨rfl, D, distinct, uses, running₁, running₂⟩
    rw [Grammar.nonterminal, counterparts.nonterminals] at found₂
    cases found₁.symm.trans found₂
    obtain ⟨ids₁, later₁⟩ := running₁.resuming n₁
    obtain ⟨ids₂, later₂⟩ := running₂.resuming n₁
    have fresh := fresh_replicate .null Ledger.Entry.fresh_null n₁.attributeCount
    exact counterparts.paired_cons distinct uses fresh later₁ later₂
      (by rw [ids₁, List.length_replicate]) (by rw [ids₂, List.length_replicate])
  reduce := by
    rintro A₁ e₁ e₁' _ e₂ e₂' id r₁ r₂ n₁ n₂ o rule₁ rule₂ found₁ found₂
      ⟨rfl, D, distinct, uses, running₁, running₂⟩ ran₁ ran₂
    obtain ⟨length, lhs⟩ := Grammar.rule_of_skeleton counterparts.skeleton rule₁ rule₂
    rw [Grammar.nonterminal, counterparts.nonterminals, ← lhs] at found₂
    cases found₁.symm.trans found₂
    obtain ⟨ids₁, later₁⟩ := running₁.reducing o n₁
    obtain ⟨ids₂, later₂⟩ := running₂.reducing o n₁
    have fresh := fresh_replicate (.declared o none) nofun n₁.attributeCount
    rw [List.length_map] at ids₂
    rw [← counterparts.map_append D fresh] at later₂
    rw [← length] at ran₂ ⊢
    rw [ids₁] at ran₁ ⊢
    rw [ids₂] at ran₂ ⊢
    have size : D.length + n₁.attributeCount =
        (D ++ List.replicate n₁.attributeCount (Ledger.Entry.declared o none)).length := by simp
    have named := (distinct.take_reverse r₁.length.toNat).cons_range' n₁.attributeCount
    have left := (distinct.drop r₁.length.toNat).cons_range' n₁.attributeCount
    rw [size] at named left
    obtain ⟨longer, ended₁⟩ := later₁.runRule obeys sound₁ named.inside rule₁ ran₁
    obtain ⟨_, ended₂⟩ :=
      later₂.runRule obeys sound₂ (by rw [List.length_map]; exact named.inside) rule₂ ran₂
    rw [← counterparts.rules rule₁ rule₂ named.nodup] at ended₂
    have actions : ∀ a ∈ r₁.actions.toList, g₁.HasAction a := fun a mem =>
      ⟨r₁, Array.mem_of_getElem? (fetch_eq_ok_iff.1 rule₁), Array.mem_toList_iff.1 mem⟩
    exact ⟨rfl, _, left.mono longer, (uses.append fresh).performAll actions, ended₁, ended₂⟩

end Pairs

section Ends

variable {n : Nat} {e₁ e₂ : Evaluation σ V}

/-- In the end a node has the tree that the ledger determines. -/
theorem Running.snapshot_of_solves (running : Running g M D e) {v : Snapshot V}
    (solved : D.Solves M.meaning (some n) v) : e.graph.settle.snapshot n = .ok v := by
  obtain ⟨⟨sound, grounded, fulfils, _⟩, tracked, queue⟩ := running
  have shown : e.graph.Shows n v := presents_of_solves fulfils tracked queue solved
  exact shown.snapshot_settle grounded sound.graph.linked

/-- In the end a node is null if the ledger determines no tree. -/
theorem Running.snapshot_of_unsolved (running : Running g M D e) (inside : n < D.length)
    (unsolved : ∀ v, ¬D.Solves M.meaning (some n) v) :
    e.graph.settle.snapshot n = .ok .null := by
  obtain ⟨⟨sound, grounded, fulfils, _⟩, _⟩ := running
  exact Graph.snapshot_settle_of_unknown grounded sound.graph.linked (fulfils.size ▸ inside)
    fun v shown => unsolved v (fulfils.shown shown)

/-- One ledger leads to the same trees. -/
theorem trees_agree (running₁ : Running g₁ M D e₁) (running₂ : Running g₂ M D e₂)
    (inside : n < D.length) :
    ∃ tree, e₁.graph.settle.snapshot n = .ok tree ∧ e₂.graph.settle.snapshot n = .ok tree := by
  by_cases solved : ∃ v, D.Solves M.meaning (some n) v
  · obtain ⟨v, solved⟩ := solved
    exact ⟨v, running₁.snapshot_of_solves solved, running₂.snapshot_of_solves solved⟩
  · have unsolved := not_exists.1 solved
    exact ⟨.null, running₁.snapshot_of_unsolved inside unsolved,
      running₂.snapshot_of_unsolved inside unsolved⟩

/-- Everyone who is to be asked for has been asked for. -/
theorem Running.userAt_of_asked (running : Running g M D e) {r : Option (Origin × String)}
    (asked : D.Asked M.meaning n r) : e.graph.UserAt n := by
  obtain ⟨⟨_, _, fulfils, _⟩, tracked, queue⟩ := running
  cases asked with
  | @call o a ps vs here hard params clean =>
    have computed : a.isCopy = false := by simp [SemanticAction.isCopy, hard]
    obtain ⟨length, each⟩ := List.forall₂_iff_zip.1 params
    have shown : e.graph.Shows n (a.apply M.meaning o.pos vs) :=
      presents_of_solves fulfils tracked queue (.apply here computed length each)
    rw [SemanticAction.apply, if_neg (Bool.eq_false_iff.1 hard),
      if_neg (Bool.eq_false_iff.1 clean)] at shown
    cases fulfils.keeps here with
    | waiting pending =>
      obtain ⟨_, pending⟩ := pending
      exact absurd shown.known (Graph.not_known_of_pending pending)
    | copied copy =>
      rw [computed] at copy
      cases copy
    | computed _ _ there _ plain =>
      exact userAt_of_shows shown there plain

/-- What the host is asked for leads to one report at most. -/
theorem Running.asked_unique (running : Running g M D e) {r r' : Option (Origin × String)}
    (first : D.Asked M.meaning n r) (second : D.Asked M.meaning n r') : r = r' := by
  obtain ⟨⟨_, _, fulfils, _⟩, tracked, queue⟩ := running
  cases first with
  | call here _ params =>
    cases second with
    | call here' _ params' =>
      cases here.symm.trans here'
      have presented := params.imp fun _ _ => presents_of_solves fulfils tracked queue
      have presented' := params'.imp fun _ _ => presents_of_solves fulfils tracked queue
      rw [Graph.forall₂_presents_unique presented presented']

theorem Running.mem_of_asked (running : Running g M D e)
    {L : List (Nat × Option (Origin × String))} (accounts : Accounts M D L e)
    {r : Option (Origin × String)} (asked : D.Asked M.meaning n r) : (n, r) ∈ L := by
  obtain ⟨⟨_, r'⟩, mem, rfl⟩ := List.mem_map.1 (accounts.users.2 (running.userAt_of_asked asked))
  rw [running.asked_unique asked (accounts.asked mem)]
  exact mem

/-- One ledger leads to the same calls and the same refusals, in any order. -/
theorem books_agree (running₁ : Running g₁ M D e₁) (running₂ : Running g₂ M D e₂) :
    e₁.stats.hardCalls = e₂.stats.hardCalls ∧
      e₁.stats.semanticErrors = e₂.stats.semanticErrors ∧
      (M.log e₁.host).Perm (M.log e₂.host) := by
  obtain ⟨L₁, accounts₁⟩ := running₁.solving.accounts
  obtain ⟨L₂, accounts₂⟩ := running₂.solving.accounts
  have perm : L₁.Perm L₂ := by
    rw [List.perm_ext_iff_of_nodup accounts₁.nodup.of_map accounts₂.nodup.of_map]
    rintro ⟨n, r⟩
    exact ⟨fun mem => running₂.mem_of_asked accounts₂ (accounts₁.asked mem),
      fun mem => running₁.mem_of_asked accounts₁ (accounts₂.asked mem)⟩
  refine ⟨?_, ?_, ?_⟩
  · rw [accounts₁.hardCalls, accounts₂.hardCalls, perm.length_eq]
  · rw [accounts₁.semanticErrors, accounts₂.semanticErrors, (perm.filterMap _).length_eq]
  · rw [accounts₁.reports, accounts₂.reports]
    exact (perm.filterMap _).map _

end Ends

section Parses

variable {I : σ → Prop} {meaning : Meaning V} {view : Report → α} {word : Origin × String → α}
  {t : Ledger.Entry → Ledger.Entry} {options : Options} {fuel₁ fuel₂ : Nat} {source : Source}
  {host : σ} {o₁ o₂ : Outcome σ V}

/-- The host with a list of its semantic reports, each as `view` shows it. -/
def journal (I : σ → Prop) (meaning : Meaning V) (view : Report → α) (word : Origin × String → α) :
    Interpretation (σ × List Report) V α where
  states s := I s.1
  meaning := meaning
  log s := (s.2.filter fun r => !r.isTextual).map view
  word := word

/-- What `view` shows of the report on a refusal can be told without the state of the host. -/
def Host.Speaks (h : Host σ V) (I : σ → Prop) (view : Report → α) (word : Origin × String → α) :
    Prop :=
  ∀ s o reason, I s → view ⟨.semantic, o, h.message s Key.failed.name [reason]⟩ = word (o, reason)

/-- So can the place of a refusal. -/
theorem speaks_place (h : Host σ V) (I : σ → Prop) :
    h.Speaks I Report.place fun refusal => (.semantic, refusal.1) :=
  fun _ _ _ _ => rfl

theorem Host.Functional.obeys_journal (functional : h.Functional I meaning)
    (speaks : h.Speaks I view word) :
    h.recording.Obeys (journal I meaning view word) where
  commands call control s inside := functional.commands call control s.1 inside
  execute call control s inside := functional.execute call control s.1 inside
  result call control s vs inside := functional.result call control s.1 vs inside
  silent report control s inside := functional.silent report control s.1 inside
  error report control s inside := functional.error report control s.1 inside
  executed _ _ _ _ := rfl
  textual report control s _ textual := by
    simp [journal, Host.recording, Report.isTextual, textual]
  refused o reason control s inside := by
    simp [journal, Host.recording, Report.isTextual, speaks s.1 o reason inside]

theorem Host.Functional.patient (functional : h.Functional I meaning) : h.Patient I where
  execute call control s inside :=
    ⟨by simp [functional.commands call control s inside], functional.execute call control s inside⟩
  error report control s inside :=
    ⟨by simp [functional.silent report control s inside], functional.error report control s inside⟩

/-- The outcome of a parse that ended in `e`. -/
structure Outcome.Closes {τ : Type} (o : Outcome σ V) (e : Evaluation τ V) : Prop where
  graph : o.graph = e.graph.settle
  hardCalls : o.stats.hardCalls = e.stats.hardCalls
  semanticErrors : o.stats.semanticErrors = e.stats.semanticErrors

theorem root_ofConfig {τ : Type} (accepted : Bool) (c : Config τ V) :
    (Outcome.ofConfig accepted c).root =
      if accepted then (c.stack.map Frame.attrs).head?.bind List.head? else none := by
  simp only [Outcome.ofConfig, List.head?_map]
  cases c.stack.head? <;> rfl

theorem control_of_unlocked (unlocked : options.lockOnError = false) :
    options.control = .initial := by
  rw [Options.control, unlocked]
  rfl

/-- Two parses that have ended solve counterparts, and come to the same root. -/
theorem parse_counterparts (sound₁ : g₁.Sound) (sound₂ : g₂.Sound)
    (counterparts : Counterparts t g₁ g₂) (functional : h.Functional I meaning)
    (speaks : h.Speaks I view word) (inside : I host)
    (ended₁ : parseUnder .initial g₁ h options fuel₁ source host = .ok (some o₁))
    (ended₂ : parseUnder .initial g₂ h options fuel₂ source host = .ok (some o₂)) :
    ∃ (D : Ledger) (e₁ e₂ : Evaluation (σ × List Report) V),
      D.Uses g₁.HasAction ∧ Running g₁ (journal I meaning view word) D e₁ ∧
      Running g₂ (journal I meaning view word) (D.map t) e₂ ∧
      o₁.Closes e₁ ∧ o₂.Closes e₂ ∧
      o₁.root = o₂.root ∧ (∀ root, o₁.root = some root → root < D.length) ∧
      parseReports .initial g₁ h options fuel₁ source host = .ok e₁.host.2 ∧
      parseReports .initial g₂ h options fuel₂ source host = .ok e₂.host.2 := by
  -- Both have ended after the greater number of steps.
  obtain ⟨at_max₁, _⟩ := parseUnder_mono ended₁ (Nat.le_max_left fuel₁ fuel₂)
  obtain ⟨at_max₂, _⟩ := parseUnder_mono ended₂ (Nat.le_max_right fuel₁ fuel₂)
  obtain ⟨o₁', recorded₁, rfl⟩ := exists_recorded sound₁ at_max₁
  obtain ⟨o₂', recorded₂, rfl⟩ := exists_recorded sound₂ at_max₂
  have obeys := functional.obeys_journal speaks
  have start : Paired t g₁ g₂ (journal I meaning view word) [[]] (.initial .initial (host, [])) [[]]
      (.initial .initial (host, [])) :=
    ⟨rfl, [], ⟨List.nodup_nil, nofun⟩, nofun, .initial g₁ inside rfl, .initial g₂ inside rfl⟩
  obtain ⟨_, last₁, last₂, _, _, at₁, at₂, alike, ends⟩ :=
    parse_alike (closed_paired counterparts obeys sound₁ sound₂) counterparts.skeleton
      (Eq.refl options.stopOnError) sound₁ sound₂ start source (max fuel₁ fuel₂)
  obtain ⟨attrs, D, distinct, uses, running₁, running₂⟩ := alike.eval
  rcases ends with ⟨none₁, _⟩ | ⟨accepted, some₁, some₂⟩
  · cases recorded₁.symm.trans none₁
  · cases recorded₁.symm.trans some₁
    cases recorded₂.symm.trans some₂
    refine ⟨D, last₁.eval, last₂.eval, uses, running₁, running₂, ⟨rfl, rfl, rfl⟩, ⟨rfl, rfl, rfl⟩,
      ?_, ?_, ?_, ?_⟩
    · simp only [Outcome.mapHost, root_ofConfig, attrs]
    · intro root found
      simp only [Outcome.mapHost, root_ofConfig] at found
      split at found
      · obtain ⟨attrs, top, first⟩ := Option.bind_eq_some_iff.1 found
        exact distinct.inside root
          (List.mem_flatten.2 ⟨attrs, List.mem_of_mem_head? top, List.mem_of_mem_head? first⟩)
      · cases found
    · rw [← parseReports_mono sound₁ ended₁ (Nat.le_max_left fuel₁ fuel₂), parseReports, at₁]
      rfl
    · rw [← parseReports_mono sound₂ ended₂ (Nat.le_max_right fuel₁ fuel₂), parseReports, at₂]
      rfl

end Parses

end GrammarMachine
