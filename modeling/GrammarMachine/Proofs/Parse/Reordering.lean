import GrammarMachine.Proofs.Evaluation.Views
import GrammarMachine.Proofs.Parse.Counterparts

/-!
The order of a rule's actions does not matter. Grammars that differ in it enter the same ledger,
though their evaluations bind, defer and wake up attributes in different orders and make aliases of
different nodes. Under a host that does nothing but compute, two parses of one source come to the
same trees, call the host for the same attributes and make the same reports in some order.
-/

namespace GrammarMachine

open Evaluation

/-- Rules that differ in the order of their actions. -/
structure Rule.Reorders (r₁ r₂ : Rule) : Prop where
  length : r₁.length = r₂.length
  lhs : r₁.lhs = r₂.lhs
  actions : r₁.actions.toList.Perm r₂.actions.toList

namespace Grammar

/-- Grammars that differ in the order of actions, where no two actions of a rule have the same
target. -/
structure Reorders (g₁ g₂ : Grammar) : Prop where
  others : { g₁ with rules := #[] } = { g₂ with rules := #[] }
  rules : List.Forall₂ Rule.Reorders g₁.rules.toList g₂.rules.toList
  targets : ∀ r ∈ g₁.rules, (r.actions.toList.map SemanticAction.target).Nodup

variable {g₁ g₂ : Grammar}

theorem Reorders.skeleton (reorders : g₁.Reorders g₂) : g₁.skeleton = g₂.skeleton := by
  have bare : g₁.rules.map (fun r => { r with actions := #[] }) =
      g₂.rules.map fun r => { r with actions := #[] } := by
    rw [← Array.toList_inj, Array.toList_map, Array.toList_map, ← List.forall₂_eq_eq_eq,
      List.forall₂_map_left_iff, List.forall₂_map_right_iff]
    refine reorders.rules.imp fun r₁ r₂ same => ?_
    rw [same.length, same.lhs]
  have others := reorders.others
  rw [Grammar.mk.injEq] at others
  obtain ⟨tokens, lexer, comments, states, nonterminals, _, recoveries⟩ := others
  rw [Grammar.skeleton, Grammar.skeleton, tokens, lexer, comments, states, nonterminals, bare,
    recoveries]

theorem Reorders.rule (reorders : g₁.Reorders g₂) {id : UInt32} {r₁ r₂ : Rule}
    (first : g₁.rule id = .ok r₁) (second : g₂.rule id = .ok r₂) : r₁.Reorders r₂ := by
  have there₁ := fetch_eq_ok_iff.1 first
  have there₂ := fetch_eq_ok_iff.1 second
  rw [← Array.getElem?_toList] at there₁ there₂
  obtain ⟨inside₁, rfl⟩ := List.getElem?_eq_some_iff.1 there₁
  obtain ⟨inside₂, rfl⟩ := List.getElem?_eq_some_iff.1 there₂
  exact (List.forall₂_iff_get.1 reorders.rules).2 id.toNat inside₁ inside₂

/-- The ledgers are the same. -/
theorem Reorders.counterparts (reorders : g₁.Reorders g₂) : Counterparts id g₁ g₂ where
  skeleton := reorders.skeleton
  nonterminals := (congrArg Grammar.nonterminals reorders.others).symm
  fixed _ := rfl
  rules first second _ _ nodup D := by
    rw [List.map_id, List.map_id]
    exact Ledger.foldl_perform_eq_of_perm nodup (reorders.rule first second).actions
      (reorders.targets _ (Array.mem_of_getElem? (fetch_eq_ok_iff.1 first))) D

theorem addNames_skeleton (g : Grammar) (n : Nat) : g.skeleton.addNames n = g.addNames n := by
  induction n with
  | zero => rfl
  | succ n ih =>
    funext terminal names
    simp only [addNames, ih]
    rfl

theorem expectedText_skeleton (g : Grammar) : g.skeleton.expectedText = g.expectedText := by
  have names : g.skeleton.expectedNames = g.expectedNames := by
    funext state
    simp only [expectedNames, addNames_skeleton]
  funext or state
  rw [expectedText, expectedText, names]

end Grammar

section Parses

variable {σ V α : Type} {g₁ g₂ : Grammar} {h : Host σ V} {I : σ → Prop} {meaning : Meaning V}
  {options : Options} {fuel₁ fuel₂ : Nat} {source : Source} {host : σ} {o₁ o₂ : Outcome σ V}

/-- A host that always words a message the same way does so for both grammars. -/
theorem sameWords_of_skeleton (same : g₁.skeleton = g₂.skeleton)
    (stable : ∀ s s', I s → I s' → h.message s = h.message s') : SameWords g₁ h I g₂ h I id where
  lexical o m inside inside' := by rw [stable _ _ inside inside']
  syntactic state t inside inside' := by
    have read : g₁.skeleton.readText = g₂.skeleton.readText := congrArg Grammar.readText same
    change g₁.readText = g₂.readText at read
    have expected : g₁.expectedText = g₂.expectedText := by
      rw [← g₁.expectedText_skeleton, same, g₂.expectedText_skeleton]
    simp only [Message.syntaxError, stable _ _ inside inside', read, expected]

/-- Textual reports in the same order and semantic ones in any order are the same altogether. -/
theorem perm_of_textual {view : Report → α} {reports₁ reports₂ : List Report}
    (textual : (reports₁.filter Report.isTextual).map view =
      (reports₂.filter Report.isTextual).map view)
    (semantic : ((reports₁.filter fun r => !r.isTextual).map view).Perm
      ((reports₂.filter fun r => !r.isTextual).map view)) :
    (reports₁.map view).Perm (reports₂.map view) := by
  have parts (reports : List Report) :
      ((reports.filter Report.isTextual).map view ++
        (reports.filter fun r => !r.isTextual).map view).Perm (reports.map view) := by
    rw [← List.map_append]
    exact (List.filter_append_perm Report.isTextual reports).map view
  refine (parts reports₁).symm.trans (.trans ?_ (parts reports₂))
  rw [textual]
  exact semantic.append_left _

/-- Two parses that have ended agree on the text and on the reports about it. -/
theorem texts_agree (sound₁ : g₁.Sound) (sound₂ : g₂.Sound) (same : g₁.skeleton = g₂.skeleton)
    (functional : h.Functional I meaning) {view : Report → α}
    (words : SameWords g₁ h I g₂ h I view) (inside : I host)
    (ended₁ : parseUnder .initial g₁ h options fuel₁ source host = .ok (some o₁))
    (ended₂ : parseUnder .initial g₂ h options fuel₂ source host = .ok (some o₂)) :
    o₁.SameText o₂ ∧ ∃ reports₁ reports₂,
      parseReports .initial g₁ h options fuel₁ source host = .ok reports₁ ∧
      parseReports .initial g₂ h options fuel₂ source host = .ok reports₂ ∧
      (reports₁.filter Report.isTextual).map view =
        (reports₂.filter Report.isTextual).map view := by
  -- Both have ended after the greater number of steps.
  obtain ⟨at_max₁, _⟩ := parseUnder_mono ended₁ (Nat.le_max_left fuel₁ fuel₂)
  obtain ⟨at_max₂, _⟩ := parseUnder_mono ended₂ (Nat.le_max_right fuel₁ fuel₂)
  obtain ⟨_, reports₁, reports₂, _, _, list₁, list₂, textual, outcomes⟩ :=
    parse_tandem sound₁ sound₂ same functional.patient functional.patient words
      (Eq.refl options.stopOnError) (Eq.refl Control.initial.stopped)
      (Eq.refl Control.initial.stopped) inside inside source (max fuel₁ fuel₂)
  rw [parseReports_mono sound₁ ended₁ (Nat.le_max_left fuel₁ fuel₂)] at list₁
  rw [parseReports_mono sound₂ ended₂ (Nat.le_max_right fuel₁ fuel₂)] at list₂
  refine ⟨?_, reports₁, reports₂, list₁, list₂, textual⟩
  rcases outcomes with ⟨none₁, _⟩ | ⟨_, _, some₁, some₂, same⟩
  · cases at_max₁.symm.trans none₁
  · cases at_max₁.symm.trans some₁
    cases at_max₂.symm.trans some₂
    exact same

/-- Two parses that have ended and solve the same ledger make the same reports in some order. -/
theorem reports_perm (sound₁ : g₁.Sound) (sound₂ : g₂.Sound) (counterparts : Counterparts id g₁ g₂)
    (functional : h.Functional I meaning) {view : Report → α} {word : Origin × String → α}
    (words : SameWords g₁ h I g₂ h I view) (speaks : h.Speaks I view word) (inside : I host)
    (ended₁ : parseUnder .initial g₁ h options fuel₁ source host = .ok (some o₁))
    (ended₂ : parseUnder .initial g₂ h options fuel₂ source host = .ok (some o₂)) :
    ∃ reports₁ reports₂,
      parseReports .initial g₁ h options fuel₁ source host = .ok reports₁ ∧
      parseReports .initial g₂ h options fuel₂ source host = .ok reports₂ ∧
      (reports₁.map view).Perm (reports₂.map view) := by
  obtain ⟨D, e₁, e₂, _, running₁, running₂, _, _, _, _, list₁, list₂⟩ :=
    parse_counterparts sound₁ sound₂ counterparts functional speaks inside ended₁ ended₂
  rw [List.map_id] at running₂
  obtain ⟨_, _, _, at₁, at₂, textual⟩ :=
    texts_agree sound₁ sound₂ counterparts.skeleton functional words inside ended₁ ended₂
  cases list₁.symm.trans at₁
  cases list₂.symm.trans at₂
  exact ⟨_, _, list₁, list₂, perm_of_textual textual (books_agree running₁ running₂).2.2⟩

end Parses

section Example

open Samples Samples.Summation

/-- What the host of the sums computes. -/
def Samples.Summation.meaning : Meaning Int := fun function pos vs =>
  ((Machine.start false).execute (.ofTrees function pos vs)).1.result

theorem Samples.Summation.Machine.result_congr {call call' : Call Int}
    (same : call.SameView call') : result call = result call' := by
  simp only [result, addition, same.function, same.text?, same.value?]

theorem Samples.Summation.host_functional :
    host.Functional (fun m => m.log.stopOnFirst = false) meaning where
  commands call control m _ := by
    simp only [host, Machine.execute]
    split <;> rfl
  execute call control m going := by
    simp only [host, Machine.execute]
    split <;> exact going
  result call control m vs _ trees := by
    simp only [host, meaning, Machine.execute, Machine.result_congr (Call.sameView_ofTrees trees)]
    split <;> rfl
  silent report control m going := by simp [host, ErrorLog.add, going]
  error report control m going := going

/-- The sums with all actions in the opposite order. -/
def Samples.Summation.reversed : Grammar :=
  { grammar with rules := grammar.rules.map fun r => { r with actions := r.actions.reverse } }

theorem Samples.Summation.reorders_reversed : grammar.Reorders reversed where
  others := rfl
  rules := by
    rw [reversed, Array.toList_map, List.forall₂_map_right_iff, List.forall₂_same]
    refine fun r _ => ⟨rfl, rfl, ?_⟩
    rw [Array.toList_reverse]
    exact (List.reverse_perm _).symm
  targets := by decide +kernel

end Example

end GrammarMachine
