import GrammarMachine.Proofs.Evaluation.Arithmetic

/-!
What the calculator's host refuses. A number on the stack has its text, and a phrase has a value or
is an error; above an error no call is made. So the host is called with all that it asks for, and
refuses numbers, sums and products that are too large, and nothing else. As everything is known when
a rule is reduced, nothing waits.
-/

namespace GrammarMachine

/-- A refusal is put into words as it stands. -/
theorem Message.render_failed (reason : String) :
    Message.render Key.failed.name [reason] = reason := by
  have known : Key.ofName? Key.failed.name = some .failed := by decide
  have number : Text.natural? ['0'] = some 0 := by decide
  have group : expand [reason] ['0'] = reason.toList := by simp [expand, number, indexBound]
  rw [render, known]
  exact (congrArg String.ofList group).trans String.ofList_toList

namespace Samples.Calculator

open Evaluation

/-- Why the host refuses a call that is made as it should be. -/
inductive Refusal : String → Prop
  | number {text : String} (numeral : IsNumeral text) (unfit : numeral? text = none) :
      Refusal s!"number {text} is out of range"
  | sum : Refusal "overflow in addition"
  | product : Refusal "overflow in multiplication"

/-- The semantic errors that have been delivered are such refusals. -/
def Candid (e : Evaluation Machine Int) : Prop :=
  ∀ r ∈ e.host.log.reports, r.kind = .semantic → Refusal r.message

/-- Nothing has waited, and no call was refused but for such a reason. -/
structure Fair (e : Evaluation Machine Int) : Prop where
  prompt : e.Prompt
  candid : Candid e

/-- A node with a value, unless it is an error. -/
def Valued (node : Node Int) : Prop :=
  node.isError = false → ∃ f v pos, node = .user f (some v) pos false

/-- What the attributes of a frame are, by the symbol of the frame. -/
inductive Suits (graph : Graph Int) : Symbol UInt32 UInt32 → List Nat → Prop
  | numeral {n pos : Nat} {text : String} {error : Bool}
      (resolves : graph.Resolves n (.text text pos error)) (numeral : IsNumeral text) :
      Suits graph (.terminal number) [n]
  | sign {t : UInt32} {attrs : List Nat} (other : t ≠ number) : Suits graph (.terminal t) attrs
  | phrase {id : UInt32} {n : Nat} {node : Node Int} (resolves : graph.Resolves n node)
      (valued : Valued node) : Suits graph (.nonterminal id) [n]

variable {e e' e₁ : Evaluation Machine Int} {graph graph' : Graph Int} {node : Node Int}
  {attrs : List Nat} {rhs : List (List Nat)}

theorem Suits.grows {x : Symbol UInt32 UInt32} (suits : Suits graph x attrs)
    (grows : graph.Grows graph') (linked : graph'.Linked) : Suits graph' x attrs := by
  cases suits with
  | numeral resolves numeral => exact .numeral (resolves.grows grows linked) numeral
  | sign other => exact .sign other
  | phrase resolves valued => exact .phrase (resolves.grows grows linked) valued

section Answers

/-- The host refuses the call, if at all, for one of the good reasons. -/
def Justified (answer : Answer Int) : Prop :=
  ∀ reason, answer.result = .error reason → Refusal reason

theorem justified_number {call : Call Int} {text : String} (function : call.function = evaluate)
    (param : call.text? 0 = some text) (numeral : IsNumeral text) :
    Justified (Machine.answer call) := by
  rw [Machine.answer, if_pos function, Machine.evaluateNumber, param]
  dsimp only
  intro reason refused
  cases value : numeral? text with
  | some n =>
    rw [value] at refused
    cases refused
  | none =>
    rw [value] at refused
    cases refused
    exact .number numeral value

theorem justified_binary {call : Call Int} {operation : Int → Int → Int} {overflow : String}
    {a b : Int} (left : call.value? 0 = some a) (right : call.value? 1 = some b)
    (refusal : Refusal overflow) : Justified (Machine.binary call operation overflow) := by
  rw [Machine.binary, left, right]
  dsimp only
  intro reason refused
  split at refused <;> cases refused
  exact refusal

theorem justified_sum {call : Call Int} {a b : Int} (function : call.function = add)
    (left : call.value? 0 = some a) (right : call.value? 1 = some b) :
    Justified (Machine.answer call) := by
  rw [Machine.answer, function, if_neg (by decide), if_pos rfl]
  exact justified_binary left right .sum

theorem justified_product {call : Call Int} {a b : Int} (function : call.function = multiply)
    (left : call.value? 0 = some a) (right : call.value? 1 = some b) :
    Justified (Machine.answer call) := by
  rw [Machine.answer, function, if_neg (by decide), if_neg (by decide), if_pos rfl]
  exact justified_binary left right .product

end Answers

theorem Candid.congr (candid : Candid e) (host : e'.host = e.host) : Candid e' := by
  rw [Candid, host]
  exact candid

/-- Errors of other kinds may say what they like. -/
theorem Candid.report (candid : Candid e) {kind : ErrorKind} (o : Origin) (m : Message)
    (told : kind = .semantic → Refusal (Message.render m.key.name m.args)) :
    Candid (e.report host kind o m) := by
  intro r mem semantic
  rcases Array.mem_push.1 (show r ∈ e.host.log.reports.push _ from mem) with old | rfl
  · exact candid r old semantic
  · exact told semantic

/-- A call of parameters that are no errors gives a value, or is refused for a good reason. -/
theorem Candid.computed {a : SemanticAction} {ps : List Nat} {o : Origin} {nodes : List (Node Int)}
    (candid : Candid e) (hard : a.soft = false)
    (resolves : List.Forall₂ e.graph.Resolves ps nodes)
    (justified : (∀ node ∈ nodes, node.isError = false) →
      Justified (Machine.answer ⟨a.function, o.pos, ps, e.graph⟩))
    (computed : Computed host a ps o e node e₁) : Valued node ∧ Candid e₁ := by
  have called : Candid (e.called host ⟨a.function, o.pos, ps, e.graph⟩) := candid
  cases computed with
  | term _ soft => cases hard.symm.trans soft
  | null => exact ⟨nofun, candid⟩
  | value => exact ⟨fun _ => ⟨_, _, _, rfl⟩, called⟩
  | @refusal flags reason errors _ free answer =>
    refine ⟨nofun, called.report o _ fun _ => ?_⟩
    cases errors.symm.trans (Graph.mapM_isError resolves)
    have all : ∀ node ∈ nodes, node.isError = false := by
      simpa using (Bool.or_eq_false_iff.1 free).1
    rw [Message.render_failed]
    exact justified all reason answer

namespace Reduced

variable {target p q : Nat} {id : UInt32} {r : Rule}

theorem phrase_copied (reduced : Reduced id target rhs e e')
    (rule : (grammar .hard).rules[id.toNat]? = some r) {s : Slot} {input input' : UInt32}
    (single : r.actions = #[.copy ⟨0, 0⟩ s])
    (named : ∀ n, attrs = [n] → s.find? [target] rhs = some n)
    (suits : Suits e.graph (.nonterminal input) attrs) (fair : Fair e) :
    Suits e'.graph (.nonterminal input') [target] ∧ Fair e' := by
  have sound := Grammar.sound_of_check (check_grammar .hard)
  cases suits with
  | phrase resolves valued =>
    obtain ⟨o, direct⟩ := reduced.direct rule single rfl (.cons (named _ rfl) .nil)
      (.cons resolves .nil)
    obtain ⟨copied, quiet⟩ :=
      direct.copied sound reduced.sound reduced.queue reduced.ran rfl resolves
    exact ⟨.phrase copied valued,
      direct.prompt sound reduced.sound reduced.queue reduced.ran fair.prompt,
      fair.candid.congr quiet.host⟩

theorem phrase_applied (reduced : Reduced id target rhs e e')
    (rule : (grammar .hard).rules[id.toNat]? = some r) {f input : UInt32} {ss : List Slot}
    {ps : List Nat} {nodes : List (Node Int)} (single : r.actions = #[.call f ⟨0, 0⟩ ss])
    (named : List.Forall₂ (fun s p => s.find? [target] rhs = some p) ss ps)
    (resolves : List.Forall₂ e.graph.Resolves ps nodes)
    (justified : ∀ {call : Call Int}, call.function = f → (∀ i, call.param? i = nodes[i]?) →
      (∀ node ∈ nodes, node.isError = false) → Justified (Machine.answer call))
    (fair : Fair e) :
    Suits e'.graph (.nonterminal input) [target] ∧ Fair e' := by
  have sound := Grammar.sound_of_check (check_grammar .hard)
  obtain ⟨o, direct⟩ := reduced.direct rule single rfl named resolves
  obtain ⟨e₁, node, e₂, quiet, later, computed, quiet', found⟩ :=
    direct.applied sound reduced.sound reduced.queue reduced.ran rfl resolves
  obtain ⟨valued, candid⟩ := (fair.candid.congr quiet.host).computed rfl later
    (justified rfl (Call.param?_of_resolves later)) computed
  exact ⟨.phrase found valued,
    direct.prompt sound reduced.sound reduced.queue reduced.ran fair.prompt,
    candid.congr quiet'.host⟩

/-- The sum or product of two phrases. -/
theorem phrase_binary (reduced : Reduced id target rhs e e')
    (rule : (grammar .hard).rules[id.toNat]? = some r) {f input left right : UInt32}
    (single : r.actions = #[.call f ⟨0, 0⟩ [⟨1, 0⟩, ⟨3, 0⟩]]) {attrs attrs' attrs'' : List Nat}
    (operands : rhs = [attrs, attrs', attrs'']) (first : Suits e.graph (.nonterminal left) attrs)
    (second : Suits e.graph (.nonterminal right) attrs'')
    (justified : ∀ {call : Call Int} {a b : Int}, call.function = f → call.value? 0 = some a →
      call.value? 1 = some b → Justified (Machine.answer call))
    (fair : Fair e) :
    Suits e'.graph (.nonterminal input) [target] ∧ Fair e' := by
  subst operands
  cases first with
  | phrase resolves valued =>
    cases second with
    | phrase resolves' valued' =>
      refine reduced.phrase_applied rule single (.cons rfl (.cons rfl .nil))
        (.cons resolves (.cons resolves' .nil)) ?_ fair
      intro call function params free
      obtain ⟨_, a, _, rfl⟩ := valued (free _ (by simp))
      obtain ⟨_, b, _, rfl⟩ := valued' (free _ (by simp))
      have left : call.value? 0 = some a := by simp [Call.value?, params]
      have right : call.value? 1 = some b := by simp [Call.value?, params]
      exact justified function left right

/-- The attributes of a right-hand side that suit it make one that suits the left-hand side. -/
theorem phrase (reduced : Reduced id target rhs e e') {production : ContextFreeRule UInt32 UInt32}
    (there : productions[id.toNat]? = some production)
    (suits : List.Forall₂ (Suits e.graph) production.output rhs) (fair : Fair e) :
    Suits e'.graph (.nonterminal production.input) [target] ∧ Fair e' := by
  have rule : ∀ {i : Nat} {r : Rule}, id.toNat = i → (rules .hard)[i]? = some r →
      (grammar .hard).rules[id.toNat]? = some r := fun number found => number ▸ found
  rcases number : id.toNat with _ | _ | _ | _ | _ | _ | i <;> rw [number] at there
  · cases there
    obtain _ | ⟨first, _ | ⟨_, _ | ⟨second, _ | _⟩⟩⟩ := suits
    exact reduced.phrase_binary (rule number rfl) rfl rfl first second justified_sum fair
  · cases there
    obtain _ | ⟨only, _ | _⟩ := suits
    exact reduced.phrase_copied (rule number rfl) rfl (by rintro _ rfl; rfl) only fair
  · cases there
    obtain _ | ⟨first, _ | ⟨_, _ | ⟨second, _ | _⟩⟩⟩ := suits
    exact reduced.phrase_binary (rule number rfl) rfl rfl first second justified_product fair
  · cases there
    obtain _ | ⟨only, _ | _⟩ := suits
    exact reduced.phrase_copied (rule number rfl) rfl (by rintro _ rfl; rfl) only fair
  · cases there
    obtain _ | ⟨_, _ | ⟨inner, _ | ⟨_, _ | _⟩⟩⟩ := suits
    exact reduced.phrase_copied (rule number rfl) rfl (by rintro _ rfl; rfl) inner fair
  · cases there
    obtain _ | ⟨only, _ | _⟩ := suits
    cases only with
    | sign other => exact absurd rfl other
    | numeral resolves numeral =>
      refine reduced.phrase_applied (rule number rfl) rfl (.cons rfl .nil) (.cons resolves .nil) ?_
        fair
      intro call function params _
      exact justified_number function (by simp [Call.text?, params]) numeral
  · cases there

end Reduced

end Samples.Calculator

end GrammarMachine
