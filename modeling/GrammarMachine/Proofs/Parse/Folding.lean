import GrammarMachine.Proofs.Evaluation.Views
import GrammarMachine.Proofs.Parse.Counterparts

/-!
Hard evaluation is the fold of the soft tree. A grammar whose actions call the host can be made to
keep terms instead. The two enter counterparts of one ledger, and the solutions of the one are those
of the other with every term computed, from the leaves up: errors on the way leave null, and what
the host refuses has no value. What cannot be solved is null in both.
-/

namespace GrammarMachine

section Trees

variable {V : Type} (meaning : Meaning V)

mutual

/-- The tree with every term computed. -/
def Snapshot.fold : Snapshot V → Snapshot V
  | .term function children pos _ =>
    let children := foldAll children
    if children.any isError then .null
    else .ofResult function pos (meaning function pos children)
  | .text content pos error => .text content pos error
  | .user function value pos error => .user function value pos error
  | .null => .null
  | .pending => .pending

@[inherit_doc Snapshot.fold]
def Snapshot.foldAll : List (Snapshot V) → List (Snapshot V)
  | [] => []
  | s :: rest => fold s :: foldAll rest

end

theorem Snapshot.foldAll_eq_map (ss : List (Snapshot V)) :
    foldAll meaning ss = ss.map (fold meaning) := by
  induction ss with
  | nil => rfl
  | cons s rest ih => rw [foldAll, ih, List.map_cons]

end Trees

/-- The action as one that keeps a term. Copies stay as they are. -/
def SemanticAction.soften (a : SemanticAction) : SemanticAction :=
  { a with soft := true }

/-- A copy, or a call of a function other than zero. -/
def SemanticAction.CopiesOrCalls (a : SemanticAction) : Prop :=
  a.isCopy = false → a.soft = false ∧ a.function ≠ 0

namespace SemanticAction

variable {V : Type} {a : SemanticAction}

theorem isCopy_soften (kind : a.CopiesOrCalls) : a.soften.isCopy = a.isCopy := by
  cases copy : a.isCopy with
  | true =>
    simp only [isCopy, Bool.and_eq_true] at copy
    simp [isCopy, soften, copy.2]
  | false =>
    obtain ⟨_, function⟩ := kind copy
    simp [isCopy, soften, function]

/-- To compute a term is to fold it. -/
theorem fold_apply_soften (meaning : Meaning V) (hard : a.soft = false) (pos : Nat)
    (vs : List (Snapshot V)) :
    (a.soften.apply meaning pos vs).fold meaning =
      a.apply meaning pos (vs.map (Snapshot.fold meaning)) := by
  simp [apply, soften, hard, Snapshot.fold, Snapshot.foldAll_eq_map]

end SemanticAction

namespace Ledger

/-- The entry with its action made soft. -/
def Entry.soften : Entry → Entry
  | declared o (some d) => declared o (some ⟨d.action.soften, d.params⟩)
  | entry => entry

variable {lhs : List Nat} {rhs : List (List Nat)} {D : Ledger}

theorem map_soften_define (D : Ledger) (target : Option Nat) (d : Definition) :
    (D.define target d).map Entry.soften =
      define (D.map Entry.soften) target ⟨d.action.soften, d.params⟩ := by
  refine List.ext_getElem? fun i => ?_
  simp only [List.getElem?_map, getElem?_define]
  split
  · cases D[i]? with
    | none => rfl
    | some entry =>
      cases entry with
      | declared o definition => cases definition <;> rfl
      | _ => rfl
  · rfl

theorem map_soften_perform (D : Ledger) (a : SemanticAction) :
    (D.perform lhs rhs a).map Entry.soften =
      perform lhs rhs (D.map Entry.soften) a.soften := by
  have kept (k : Nat) : (nulls k).map Entry.soften = nulls k := List.map_replicate
  rw [perform, map_soften_define, List.map_append, absent, kept]
  rfl

theorem map_soften_foldl (actions : List SemanticAction) (D : Ledger) :
    (actions.foldl (perform lhs rhs) D).map Entry.soften =
      (actions.map SemanticAction.soften).foldl (perform lhs rhs) (D.map Entry.soften) := by
  induction actions generalizing D with
  | nil => rfl
  | cons a rest ih => rw [List.foldl_cons, ih, map_soften_perform, List.map_cons, List.foldl_cons]

section Solutions

variable {V : Type} {meaning : Meaning V} {p : Option Nat} {v : Snapshot V}

theorem getElem?_soften {n : Nat} {entry : Entry} (here : D[n]? = some entry) :
    (D.map Entry.soften)[n]? = some entry.soften := by
  rw [List.getElem?_map, here]
  rfl

theorem exists_of_soften {n : Nat} {o : Origin} {a' : SemanticAction} {ps : List (Option Nat)}
    (here : (D.map Entry.soften)[n]? = some (.declared o (some ⟨a', ps⟩))) :
    ∃ a, D[n]? = some (.declared o (some ⟨a, ps⟩)) ∧ a' = a.soften := by
  rw [List.getElem?_map] at here
  obtain ⟨entry, there, same⟩ := Option.map_eq_some_iff.1 here
  cases entry with
  | declared o' definition =>
    cases definition with
    | none => cases same
    | some d =>
      cases same
      exact ⟨d.action, there, rfl⟩
  | _ => cases same

theorem getElem?_of_soften {n : Nat} {entry : Entry}
    (here : (D.map Entry.soften)[n]? = some entry) (leaf : ∀ o d, entry ≠ .declared o d) :
    D[n]? = some entry := by
  rw [List.getElem?_map] at here
  obtain ⟨other, there, same⟩ := Option.map_eq_some_iff.1 here
  cases other with
  | declared o definition => cases definition <;> exact absurd same.symm (leaf _ _)
  | _ =>
    cases same
    exact there

/-- What is solved with calls is solved with terms. -/
theorem Solves.exists_soften (solved : D.Solves meaning p v)
    (kind : D.Uses SemanticAction.CopiesOrCalls) :
    ∃ v', Solves meaning (D.map Entry.soften) p v' := by
  induction solved with
  | missing => exact ⟨_, .missing⟩
  | text here => exact ⟨_, .text (getElem?_soften here)⟩
  | null here => exact ⟨_, .null (getElem?_soften here)⟩
  | copy here copy _ ih =>
    obtain ⟨v', source⟩ := ih
    refine ⟨v', .copy (getElem?_soften here) ?_ source⟩
    rw [SemanticAction.isCopy_soften (kind here), copy]
  | @apply n o a ps vs here computed length _ ih =>
    have each : ∀ p ∈ ps, ∃ v', Solves meaning (D.map Entry.soften) p v' := by
      intro p mem
      rw [← List.map_fst_zip (Nat.le_of_eq length)] at mem
      obtain ⟨⟨_, v⟩, among, rfl⟩ := List.mem_map.1 mem
      exact ih among
    obtain ⟨vs', solves⟩ := exists_forall₂ each
    obtain ⟨length', solves⟩ := List.forall₂_iff_zip.1 solves
    refine ⟨_, .apply (getElem?_soften here) ?_ length' solves⟩
    rw [SemanticAction.isCopy_soften (kind here), computed]

/-- What is solved with terms is solved with calls, by the fold. -/
theorem Solves.fold (solved : Solves meaning (D.map Entry.soften) p v)
    (kind : D.Uses SemanticAction.CopiesOrCalls) : D.Solves meaning p (v.fold meaning) := by
  induction solved with
  | missing => exact .missing
  | text here => exact .text (getElem?_of_soften here nofun)
  | null here => exact .null (getElem?_of_soften here nofun)
  | copy here copy _ ih =>
    obtain ⟨a, there, rfl⟩ := exists_of_soften here
    rw [SemanticAction.isCopy_soften (kind there)] at copy
    exact .copy there copy ih
  | @apply n o a' ps vs here computed length _ ih =>
    obtain ⟨a, there, rfl⟩ := exists_of_soften here
    rw [SemanticAction.isCopy_soften (kind there)] at computed
    rw [SemanticAction.fold_apply_soften meaning (kind there computed).1]
    refine .apply there computed (by rw [length, List.length_map]) fun {p v} mem => ?_
    rw [List.zip_map_right] at mem
    obtain ⟨⟨_, v'⟩, among, same⟩ := List.mem_map.1 mem
    cases same
    exact ih among

end Solutions

end Ledger

namespace Grammar

variable {g : Grammar}

/-- The grammar with all actions made soft. -/
def soften (g : Grammar) : Grammar :=
  { g with rules := g.rules.map fun r => { r with actions := r.actions.map SemanticAction.soften } }

theorem rule_soften {id : UInt32} {r r' : Rule} (first : g.rule id = .ok r)
    (second : g.soften.rule id = .ok r') :
    r' = { r with actions := r.actions.map SemanticAction.soften } := by
  have there := fetch_eq_ok_iff.1 second
  rw [soften, Array.getElem?_map, fetch_eq_ok_iff.1 first] at there
  exact (Option.some.inj there).symm

theorem skeleton_soften (g : Grammar) : g.soften.skeleton = g.skeleton := by
  simp only [skeleton, soften, Array.map_map]
  rfl

theorem Sound.soften (sound : g.Sound) (kind : ∀ a, g.HasAction a → a.CopiesOrCalls) :
    g.soften.Sound where
  tokens := sound.tokens
  lexer := sound.lexer
  lexer_root := sound.lexer_root
  comments := sound.comments
  comments_root := sound.comments_root
  root := sound.root
  catchAll := sound.catchAll
  shift := sound.shift
  reduce s mem a declared reduces := by
    rw [Grammar.soften, Array.size_map]
    exact sound.reduce s mem a declared reduces
  goto := sound.goto
  lhs r' mem := by
    obtain ⟨r, among, rfl⟩ := Array.mem_map.1 mem
    exact sound.lhs r among
  copy r' mem a' mem' copy := by
    obtain ⟨r, among, rfl⟩ := Array.mem_map.1 mem
    obtain ⟨a, among', rfl⟩ := Array.mem_map.1 mem'
    rw [SemanticAction.isCopy_soften (kind a ⟨r, among, among'⟩)] at copy
    exact sound.copy r among a among' copy
  recovery := sound.recovery

/-- Softened actions enter softened definitions. -/
theorem counterparts_soften (g : Grammar) :
    Counterparts Ledger.Entry.soften g g.soften where
  skeleton := g.skeleton_soften.symm
  nonterminals := rfl
  fixed {entry} fresh := by
    cases entry with
    | declared o definition =>
      cases definition with
      | none => rfl
      | some d => exact absurd rfl (fresh o d)
    | _ => rfl
  rules first second _ _ _ D := by
    rw [rule_soften first second, Ledger.map_soften_foldl, Array.toList_map]

end Grammar

section Parses

variable {σ V : Type} {g : Grammar} {h : Host σ V} {I : σ → Prop} {meaning : Meaning V}
  {options : Options} {fuel₁ fuel₂ : Nat} {source : Source} {host : σ} {o₁ o₂ : Outcome σ V}

/-- Under a host that does nothing but compute, and without locking, what a grammar computes whose
actions are copies and calls is the fold of the terms that it keeps if its actions are made soft:
there is a root with calls if and only if there is one with terms, the same one, and the tree with
calls is the fold of the tree with terms. -/
theorem calls_fold_terms (valid : g.check = .ok ())
    (kind : ∀ r ∈ g.rules, ∀ a ∈ r.actions, a.isCopy = false → a.soft = false ∧ a.function ≠ 0)
    (functional : h.Functional I meaning) (unlocked : options.lockOnError = false)
    (inside : I host) (ended₁ : parse g h options fuel₁ source host = .ok (some o₁))
    (ended₂ : parse g.soften h options fuel₂ source host = .ok (some o₂)) :
    o₁.root = o₂.root ∧ ∀ root, o₁.root = some root → ∃ tree,
      o₂.graph.snapshot root = .ok tree ∧
      o₁.graph.snapshot root = .ok (tree.fold meaning) := by
  have kind : ∀ a, g.HasAction a → a.CopiesOrCalls := fun a ⟨r, mem, mem'⟩ => kind r mem a mem'
  have sound := Grammar.sound_of_check valid
  rw [parse, control_of_unlocked unlocked] at ended₁ ended₂
  obtain ⟨D, e₁, e₂, uses, running₁, running₂, closes₁, closes₂, root, known, _⟩ :=
    parse_counterparts sound (sound.soften kind) g.counterparts_soften functional
      (speaks_place h I) inside ended₁ ended₂
  have kinds : D.Uses SemanticAction.CopiesOrCalls := fun _ _ _ here => kind _ (uses here)
  refine ⟨root, fun root found => ?_⟩
  have inside := known root found
  rw [closes₁.graph, closes₂.graph]
  by_cases solved : ∃ v, Ledger.Solves meaning (D.map Ledger.Entry.soften) (some root) v
  · obtain ⟨v, solved⟩ := solved
    exact ⟨v, running₂.snapshot_of_solves solved, running₁.snapshot_of_solves (solved.fold kinds)⟩
  · have unsolved : ∀ v, ¬D.Solves meaning (some root) v := fun v other =>
      solved (other.exists_soften kinds)
    refine ⟨.null, running₂.snapshot_of_unsolved ?_ (not_exists.1 solved),
      running₁.snapshot_of_unsolved inside unsolved⟩
    rw [List.length_map]
    exact inside

end Parses

section Example

open Samples Samples.Calculator

/-- What the host of the hard flavour computes. -/
def Samples.Calculator.meaning : Meaning Int := fun function pos vs =>
  (Machine.answer (.ofTrees function pos vs)).result

theorem Samples.Calculator.Machine.answer_congr {call call' : Call Int}
    (same : call.SameView call') : answer call = answer call' := by
  simp only [answer, binary, evaluateNumber, same.function, same.text?, same.value?]

theorem Samples.Calculator.host_functional :
    host.Functional (fun m => m.log.stopOnFirst = false) meaning where
  commands call control m _ := Machine.commands_answer call
  execute call control m going := going
  result call control m vs _ trees := by
    simp only [host, meaning, Machine.answer_congr (Call.sameView_ofTrees trees)]
  silent report control m going := by simp [host, ErrorLog.add, going]
  error report control m going := going

/-- The soft flavour is the hard one with its actions made soft. -/
theorem Samples.Calculator.soften_hard : (grammar .hard).soften = grammar .soft := by
  decide +kernel

/-- A product that does not fit, which the host refuses. -/
theorem calculator_folds_its_tree : (grammar .hard).check = .ok () ∧
    (grammar .hard).soften = grammar .soft ∧ ∃ o₁ o₂ tree,
      parse (grammar .hard) host .default 40 (.ofText "(1+2)*4611686018427387904" false)
        (Machine.start false) = .ok (some o₁) ∧
      parse (grammar .soft) host .default 40 (.ofText "(1+2)*4611686018427387904" false)
        (Machine.start false) = .ok (some o₂) ∧
      o₁.root = some 13 ∧ o₂.root = some 13 ∧ o₂.graph.snapshot 13 = .ok tree ∧
      o₁.graph.snapshot 13 = .ok (tree.fold meaning) := by
  have kind : ∀ r ∈ (grammar .hard).rules, ∀ a ∈ r.actions,
      a.isCopy = false → a.soft = false ∧ a.function ≠ 0 := by decide +kernel
  have ends₁ : ((parse (grammar .hard) host .default 40
      (.ofText "(1+2)*4611686018427387904" false) (Machine.start false)).toOption.bind id).map
        Outcome.root = some (some 13) := by decide +kernel
  have ends₂ : ((parse (grammar .soft) host .default 40
      (.ofText "(1+2)*4611686018427387904" false) (Machine.start false)).toOption.bind id).isSome =
        true := by decide +kernel
  obtain ⟨o₁, found₁, first⟩ := Option.map_eq_some_iff.1 ends₁
  obtain ⟨o₂, found₂⟩ := Option.isSome_iff_exists.1 ends₂
  obtain ⟨_, whole₁, rfl⟩ := Option.bind_eq_some_iff.1 found₁
  obtain ⟨_, whole₂, rfl⟩ := Option.bind_eq_some_iff.1 found₂
  have ended₁ := eq_ok_of_toOption whole₁
  have ended₂ := eq_ok_of_toOption whole₂
  obtain ⟨same, trees⟩ := calls_fold_terms (check_grammar .hard) kind host_functional rfl rfl ended₁
    (by rw [soften_hard]; exact ended₂)
  obtain ⟨tree, soft, hard⟩ := trees 13 first
  exact ⟨check_grammar .hard, soften_hard, o₁, o₂, tree, ended₁, ended₂, first,
    same.symm.trans first, soft, hard⟩

end Example

end GrammarMachine
