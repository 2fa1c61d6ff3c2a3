import GrammarMachine.Proofs.Evaluation.Immediate
import GrammarMachine.Proofs.Lexer.Numerals
import GrammarMachine.Proofs.Parse.Calculator

/-!
How the calculator computes an expression. Its host answers a call with the value of the expression,
unless that takes more than 64 bits; a refused call leaves an error, above which no call is made any
more. So as long as every number fits, the calls are those of the expressions on the stack, one
behind the other, and as soon as one does not, an error has been counted.
-/

namespace GrammarMachine.Samples.Calculator

open Evaluation

/-- The node that stands for an expression: its value, or an error if some number does not fit. -/
inductive Stands : Expr → Node Int → Prop
  | value {A : Expr} {f : UInt32} {pos : Nat} (fits : A.Fits) :
      Stands A (.user f (some A.value) pos false)
  | refusal {A : Expr} {f : UInt32} {pos : Nat} (unfit : ¬A.Fits) : Stands A (.user f none pos true)
  | null {A : Expr} (unfit : ¬A.Fits) : Stands A .null

/-- The node behind `n` stands for an expression. -/
def StandsAt (graph : Graph Int) (A : Expr) (n : Nat) : Prop :=
  ∃ node, graph.Resolves n node ∧ Stands A node

variable {A B C : Expr} {node : Node Int}

theorem Stands.isError_iff (stands : Stands A node) : node.isError = true ↔ ¬A.Fits := by
  cases stands with
  | value fits => exact ⟨nofun, fun unfit => absurd fits unfit⟩
  | refusal unfit => exact ⟨fun _ => unfit, fun _ => rfl⟩
  | null unfit => exact ⟨fun _ => unfit, fun _ => rfl⟩

theorem Stands.eq_user (stands : Stands A node) (fits : A.Fits) :
    ∃ f pos, node = .user f (some A.value) pos false := by
  cases stands with
  | value => exact ⟨_, _, rfl⟩
  | refusal unfit => exact absurd fits unfit
  | null unfit => exact absurd fits unfit

section Answers

/-- The answer to the call for an expression whose operands have values. -/
def Answered (A : Expr) (answer : Answer Int) : Prop :=
  A.Fits ∧ answer.result = .ok ⟨A.value, none⟩ ∨ ¬A.Fits ∧ ∃ reason, answer.result = .error reason

theorem int64?_eq (n : Int) : int64? n = if -2 ^ 63 ≤ n ∧ n < 2 ^ 63 then some n else none := by
  simp [int64?]

theorem answered_number {call : Call Int} {text : String} (function : call.function = evaluate)
    (param : call.text? 0 = some text) (numeral : IsNumeral text) :
    Answered (.number text) (Machine.answer call) := by
  rw [Machine.answer, if_pos function, Machine.evaluateNumber, param]
  dsimp only
  rw [numeral?_eq numeral, int64?_eq]
  split_ifs with fits
  · exact .inl ⟨fits, rfl⟩
  · exact .inr ⟨fits, _, rfl⟩

theorem answered_binary {call : Call Int} {operation : Int → Int → Int} {overflow : String}
    (left : call.value? 0 = some A.value) (right : call.value? 1 = some B.value)
    (value : C.value = operation A.value B.value)
    (fits : C.Fits ↔ -2 ^ 63 ≤ C.value ∧ C.value < 2 ^ 63) :
    Answered C (Machine.binary call operation overflow) := by
  rw [Machine.binary, left, right]
  dsimp only
  rw [← value, int64?_eq]
  split_ifs with bounds
  · exact .inl ⟨fits.2 bounds, rfl⟩
  · exact .inr ⟨mt fits.1 bounds, _, rfl⟩

theorem answered_sum {call : Call Int} (function : call.function = add)
    (left : call.value? 0 = some A.value) (right : call.value? 1 = some B.value) (fits : A.Fits)
    (fits' : B.Fits) : Answered (.sum A B) (Machine.answer call) := by
  rw [Machine.answer, function, if_neg (by decide), if_pos rfl]
  exact answered_binary left right rfl
    ⟨fun all => all.2.2, fun bounds => ⟨fits, fits', bounds⟩⟩

theorem answered_product {call : Call Int} (function : call.function = multiply)
    (left : call.value? 0 = some A.value) (right : call.value? 1 = some B.value) (fits : A.Fits)
    (fits' : B.Fits) : Answered (.product A B) (Machine.answer call) := by
  rw [Machine.answer, function, if_neg (by decide), if_neg (by decide), if_pos rfl]
  exact answered_binary left right rfl
    ⟨fun all => all.2.2, fun bounds => ⟨fits, fits', bounds⟩⟩

end Answers

variable {e e' e₁ : Evaluation Machine Int} {es : List Expr}

/-- What has been counted and called when these expressions have been computed, in this order. -/
structure Tallied (es : List Expr) (e : Evaluation Machine Int) : Prop where
  unlocked : e.control.locked = false
  calls : (∀ A ∈ es, A.Fits) →
    e.stats.semanticErrors = 0 ∧ e.host.calls.toList = es.flatMap Expr.calls
  errors : (∃ A ∈ es, ¬A.Fits) → 0 < e.stats.semanticErrors

theorem Tallied.congr (tallied : Tallied es e) (control : e'.control = e.control)
    (host : e'.host = e.host) (errors : e'.stats.semanticErrors = e.stats.semanticErrors) :
    Tallied es e' := by
  obtain ⟨unlocked, calls, failed⟩ := tallied
  exact ⟨control ▸ unlocked, host ▸ errors ▸ calls, errors ▸ failed⟩

theorem Tallied.quiet (tallied : Tallied es e) (quiet : e.Quiet e') : Tallied es e' := by
  obtain ⟨control, host, _, _, _, stats⟩ := quiet
  exact tallied.congr control host (by rw [stats])

theorem locked_report (kind : ErrorKind) (o : Origin) (m : Message)
    (e : Evaluation Machine Int) : (e.report host kind o m).control.locked = e.control.locked := by
  change (e.control.obeyAll (if e.host.log.stopOnFirst then [.stop] else [])).locked = _
  split <;> rfl

/-- A call for an expression, behind those for its operands. -/
theorem Tallied.computed {a : SemanticAction} {ps : List Nat} {o : Origin} {args : List Expr}
    {nodes : List (Node Int)} (tallied : Tallied (es ++ args) e) (hard : a.soft = false)
    (resolves : List.Forall₂ e.graph.Resolves ps nodes)
    (failed : (∃ node ∈ nodes, node.isError = true) ↔ ∃ B ∈ args, ¬B.Fits)
    (answered : (∀ B ∈ args, B.Fits) →
      Answered A (Machine.answer ⟨a.function, o.pos, ps, e.graph⟩))
    (operands : A.Fits → ∀ B ∈ args, B.Fits)
    (calls : A.calls = args.flatMap Expr.calls ++ [a.function])
    (computed : Computed host a ps o e node e₁) : Stands A node ∧ Tallied (es ++ [A]) e₁ := by
  have flagged : ∀ {flags : List Bool}, ps.mapM e.graph.isError = .ok flags →
      ((flags.contains true || e.locked) = true ↔ ∃ B ∈ args, ¬B.Fits) := by
    intro flags errors
    cases errors.symm.trans (Graph.mapM_isError resolves)
    rw [Evaluation.locked, tallied.unlocked, ← failed]
    simp
  -- Where an operand does not fit, neither does the expression, and that has been counted.
  have unfit : ∀ {flags : List Bool}, ps.mapM e.graph.isError = .ok flags →
      (flags.contains true || e.locked) = false → ∀ B ∈ args, B.Fits := by
    intro flags errors free B mem
    by_contra unfit
    rw [(flagged errors).2 ⟨B, mem, unfit⟩] at free
    cases free
  cases computed with
  | term _ soft => exact absurd (hard.symm.trans soft) Bool.false_ne_true
  | null errors _ blocked =>
    obtain ⟨B, mem, unfit⟩ := (flagged errors).1 blocked
    have broken : ¬A.Fits := fun fits => unfit (operands fits B mem)
    refine ⟨.null broken, tallied.unlocked, fun all => absurd (all A (by simp)) broken, fun _ => ?_⟩
    exact tallied.errors ⟨B, List.mem_append_right _ mem, unfit⟩
  | @value _ produced errors _ free answer =>
    have all := unfit errors free
    rcases answered all with ⟨fits, result⟩ | ⟨_, reason, result⟩
    · cases answer.symm.trans result
      refine ⟨.value fits, ?_, fun every => ?_, ?_⟩
      · change (e.control.obeyAll (Machine.answer _).commands).locked = false
        rw [Machine.commands_answer]
        exact tallied.unlocked
      · obtain ⟨none, before⟩ := tallied.calls fun B mem =>
          (List.mem_append.1 mem).elim (fun old => every B (List.mem_append_left _ old)) (all B)
        refine ⟨none, ?_⟩
        change (e.host.calls.push a.function).toList = _
        rw [Array.toList_push, before, List.flatMap_append, List.flatMap_append,
          List.flatMap_singleton, calls, List.append_assoc]
      · rintro ⟨B, mem, unfit⟩
        rcases List.mem_append.1 mem with old | new
        · exact tallied.errors ⟨B, List.mem_append_left _ old, unfit⟩
        · exact absurd fits (List.mem_singleton.1 new ▸ unfit)
    · cases answer.symm.trans result
  | @refusal _ reason errors _ free answer =>
    rcases answered (unfit errors free) with ⟨_, result⟩ | ⟨broken, _, _⟩
    · cases answer.symm.trans result
    · refine ⟨.refusal broken, ?_, fun all => absurd (all A (by simp)) broken, fun _ => ?_⟩
      · rw [locked_report]
        change (e.control.obeyAll (Machine.answer _).commands).locked = false
        rw [Machine.commands_answer]
        exact tallied.unlocked
      · exact Nat.succ_pos _

section Rules

variable {target p q : Nat} {id : UInt32} {r : Rule} {rhs : List (List Nat)}

/-- A rule has been run for a new attribute. -/
structure Reduced (id : UInt32) (target : Nat) (rhs : List (List Nat))
    (e e' : Evaluation Machine Int) : Prop where
  sound : e.Sound (grammar .hard)
  queue : e.queue = []
  fresh : ∃ o, e.graph.nodes[target]? = some (.pending ⟨none, [], o⟩)
  ran : runRule (grammar .hard) host id [target] rhs e = .ok e'
  grows : e.graph.Grows e'.graph
  linked : e'.graph.Linked

namespace Reduced

/-- The rule has the one action `a`, for the attribute and what is known of the frames. -/
theorem direct (reduced : Reduced id target rhs e e')
    (rule : (grammar .hard).rules[id.toNat]? = some r) {a : SemanticAction} {ps : List Nat}
    {nodes : List (Node Int)} (single : r.actions = #[a])
    (result : a.target.find? [target] rhs = some target)
    (named : List.Forall₂ (fun s p => s.find? [target] rhs = some p) a.params ps)
    (resolves : List.Forall₂ e.graph.Resolves ps nodes) :
    ∃ o, Direct (grammar .hard) e id a [target] rhs ps target o := by
  obtain ⟨o, fresh⟩ := reduced.fresh
  exact ⟨o, ⟨r, rule, single⟩, result, named, fresh, Graph.known_of_resolves resolves⟩

theorem copied (reduced : Reduced id target rhs e e')
    (rule : (grammar .hard).rules[id.toNat]? = some r) {s : Slot}
    (single : r.actions = #[.copy ⟨0, 0⟩ s]) (named : s.find? [target] rhs = some p)
    (stands : StandsAt e.graph A p) (tallied : Tallied es e) :
    StandsAt e'.graph A target ∧ Tallied es e' := by
  obtain ⟨node, resolves, stands⟩ := stands
  obtain ⟨o, direct⟩ := reduced.direct rule single rfl (.cons named .nil) (.cons resolves .nil)
  obtain ⟨copied, quiet⟩ := direct.copied (Grammar.sound_of_check (check_grammar .hard))
    reduced.sound reduced.queue reduced.ran rfl resolves
  exact ⟨⟨node, copied, stands⟩, tallied.quiet quiet⟩

theorem applied (reduced : Reduced id target rhs e e')
    (rule : (grammar .hard).rules[id.toNat]? = some r) {f : UInt32} {ss : List Slot} {ps : List Nat}
    {nodes : List (Node Int)} (args : List Expr) (single : r.actions = #[.call f ⟨0, 0⟩ ss])
    (named : List.Forall₂ (fun s p => s.find? [target] rhs = some p) ss ps)
    (resolves : List.Forall₂ e.graph.Resolves ps nodes)
    (failed : (∃ node ∈ nodes, node.isError = true) ↔ ∃ B ∈ args, ¬B.Fits)
    (answered : ∀ {call : Call Int}, call.function = f → (∀ i, call.param? i = nodes[i]?) →
      (∀ B ∈ args, B.Fits) → Answered A (Machine.answer call))
    (operands : A.Fits → ∀ B ∈ args, B.Fits) (calls : A.calls = args.flatMap Expr.calls ++ [f])
    (tallied : Tallied (es ++ args) e) : StandsAt e'.graph A target ∧ Tallied (es ++ [A]) e' := by
  obtain ⟨o, direct⟩ := reduced.direct rule single rfl named resolves
  obtain ⟨e₁, node, e₂, quiet, later, computed, quiet', found⟩ := direct.applied
    (Grammar.sound_of_check (check_grammar .hard)) reduced.sound reduced.queue reduced.ran rfl
    resolves
  obtain ⟨stands, tallied'⟩ := (tallied.quiet quiet).computed rfl later failed
    (answered rfl (Call.param?_of_resolves later)) operands calls computed
  exact ⟨⟨node, found, stands⟩, tallied'.quiet quiet'⟩

/-- The sum or product of two expressions. -/
theorem binary (reduced : Reduced id target rhs e e')
    (rule : (grammar .hard).rules[id.toNat]? = some r) {f : UInt32}
    (single : r.actions = #[.call f ⟨0, 0⟩ [⟨1, 0⟩, ⟨3, 0⟩]]) {attrs : List Nat}
    (operands : rhs = [[p], attrs, [q]]) (left : StandsAt e.graph A p)
    (right : StandsAt e.graph B q)
    (answered : ∀ {call : Call Int}, call.function = f → call.value? 0 = some A.value →
      call.value? 1 = some B.value → A.Fits → B.Fits → Answered C (Machine.answer call))
    (fits : C.Fits → A.Fits ∧ B.Fits) (calls : C.calls = A.calls ++ B.calls ++ [f])
    (tallied : Tallied (es ++ [A, B]) e) :
    StandsAt e'.graph C target ∧ Tallied (es ++ [C]) e' := by
  subst operands
  obtain ⟨node, resolves, stands⟩ := left
  obtain ⟨node', resolves', stands'⟩ := right
  refine reduced.applied rule [A, B] single
    (.cons rfl (.cons rfl .nil)) (.cons resolves (.cons resolves' .nil)) ?_ ?_ ?_ ?_ tallied
  · simp [stands.isError_iff, stands'.isError_iff]
  · intro call function params both
    have first : A.Fits := both A (by simp)
    have second : B.Fits := both B (by simp)
    obtain ⟨_, _, rfl⟩ := stands.eq_user first
    obtain ⟨_, _, rfl⟩ := stands'.eq_user second
    exact answered function (by simp [Call.value?, params]) (by simp [Call.value?, params]) first
      second
  · simpa using fits
  · simpa using calls

end Reduced

end Rules

/-- The nonterminal of a phrase. -/
def Phrase.nonterminal : Phrase → UInt32
  | .expr => Calculator.expr
  | .term => Calculator.term
  | .factor => Calculator.factor

/-- What a frame of the stack holds: a token, or a phrase with the expression it spells. -/
inductive Item where
  | token (t : Token)
  | phrase (kind : Phrase) (tokens : List Token) (tree : Expr)

namespace Item

def symbol : Item → Symbol UInt32 UInt32
  | token t => .terminal t.id
  | phrase kind _ _ => .nonterminal kind.nonterminal

/-- The tokens read for it. -/
def tokens : Item → List Token
  | token t => [t]
  | phrase _ tokens _ => tokens

/-- The expression computed for it. -/
def trees : Item → List Expr
  | token _ => []
  | phrase _ _ tree => [tree]

end Item

/-- The attributes of a frame carry what the frame holds. -/
inductive Held (graph : Graph Int) : Item → List Nat → Prop
  | token {t : Token} {attrs : List Nat} (plain : Plain t)
      (carries : ∀ text, t.text = some text → ∃ n pos, attrs = [n] ∧
        graph.Resolves n (.text text pos false)) : Held graph (.token t) attrs
  | phrase {kind : Phrase} {tokens : List Token} {tree : Expr} {n : Nat}
      (spells : Spells kind tokens tree) (stands : StandsAt graph tree n) :
      Held graph (.phrase kind tokens tree) [n]

namespace Held

variable {graph graph' : Graph Int} {item : Item} {items : List Item} {attrs : List Nat}
  {rhs : List (List Nat)} {x y z : Symbol UInt32 UInt32}

theorem grows (held : Held graph item attrs) (grows : graph.Grows graph') (linked : graph'.Linked) :
    Held graph' item attrs := by
  cases held with
  | token plain carries =>
    refine .token plain fun text carried => ?_
    obtain ⟨n, pos, named, resolves⟩ := carries text carried
    exact ⟨n, pos, named, resolves.grows grows linked⟩
  | phrase spells stands =>
    obtain ⟨node, resolves, stands⟩ := stands
    exact .phrase spells ⟨node, resolves.grows grows linked, stands⟩

theorem exists_token (held : Held graph item attrs) {id : UInt32}
    (symbol : item.symbol = .terminal id) : ∃ t, item = .token t ∧ t.id = id ∧ Plain t ∧
      ∀ text, t.text = some text → ∃ n pos, attrs = [n] ∧
        graph.Resolves n (.text text pos false) := by
  cases held with
  | token plain carries => exact ⟨_, rfl, Symbol.terminal.inj symbol, plain, carries⟩
  | phrase => cases symbol

theorem exists_phrase (held : Held graph item attrs) (kind : Phrase)
    (symbol : item.symbol = .nonterminal kind.nonterminal) :
    ∃ tokens tree n, item = .phrase kind tokens tree ∧ attrs = [n] ∧ Spells kind tokens tree ∧
      StandsAt graph tree n := by
  cases held with
  | token => cases symbol
  | @phrase other tokens tree n spells stands =>
    have same : other.nonterminal = kind.nonterminal := Symbol.nonterminal.inj symbol
    obtain rfl : other = kind := by
      cases other <;> cases kind <;> first | rfl | exact absurd same (by decide)
    exact ⟨tokens, tree, n, rfl, rfl, spells, stands⟩

theorem exists_one (held : List.Forall₂ (Held graph) items rhs)
    (symbols : items.map Item.symbol = [x]) :
    ∃ first attrs, items = [first] ∧ rhs = [attrs] ∧ first.symbol = x ∧ Held graph first attrs := by
  obtain ⟨first, rfl, symbol⟩ := List.map_eq_singleton_iff.1 symbols
  obtain ⟨attrs, _, here, rest, rfl⟩ := List.forall₂_cons_left_iff.1 held
  cases rest
  exact ⟨first, attrs, rfl, rfl, symbol, here⟩

theorem exists_three (held : List.Forall₂ (Held graph) items rhs)
    (symbols : items.map Item.symbol = [x, y, z]) :
    ∃ first second third attrs attrs' attrs'', items = [first, second, third] ∧
      rhs = [attrs, attrs', attrs''] ∧ (first.symbol = x ∧ Held graph first attrs) ∧
      (second.symbol = y ∧ Held graph second attrs') ∧ third.symbol = z ∧
      Held graph third attrs'' := by
  obtain ⟨first, items, rfl, symbol, symbols⟩ := List.map_eq_cons_iff.1 symbols
  obtain ⟨second, items, rfl, symbol', symbols⟩ := List.map_eq_cons_iff.1 symbols
  obtain ⟨third, rfl, symbol''⟩ := List.map_eq_singleton_iff.1 symbols
  cases held with
  | cons here held =>
    cases held with
    | cons here' held =>
      obtain ⟨attrs'', _, here'', rest, rfl⟩ := List.forall₂_cons_left_iff.1 held
      cases rest
      exact ⟨first, second, third, _, _, attrs'', rfl, rfl, ⟨symbol, here⟩, ⟨symbol', here'⟩,
        symbol'', here''⟩

end Held

/-- A reduction makes one phrase of the items of a right-hand side. -/
theorem Reduced.item {id : UInt32} {target : Nat} {rhs : List (List Nat)}
    (reduced : Reduced id target rhs e e') {production : ContextFreeRule UInt32 UInt32}
    (there : productions[id.toNat]? = some production) {items : List Item}
    (symbols : items.map Item.symbol = production.output)
    (held : List.Forall₂ (Held e.graph) items rhs)
    (tallied : Tallied (es ++ items.flatMap Item.trees) e) :
    ∃ kind A, production.input = kind.nonterminal ∧
      Spells kind (items.flatMap Item.tokens) A ∧ StandsAt e'.graph A target ∧
      Tallied (es ++ [A]) e' := by
  have rule : ∀ {i : Nat} {r : Rule}, id.toNat = i → (rules .hard)[i]? = some r →
      (grammar .hard).rules[id.toNat]? = some r := fun number found => number ▸ found
  rcases number : id.toNat with _ | _ | _ | _ | _ | _ | i <;> rw [number] at there
  · cases there
    obtain ⟨_, _, _, _, attrs, _, rfl, rfl, ⟨one, first⟩, ⟨two, second⟩, three, third⟩ :=
      Held.exists_three held symbols
    obtain ⟨u, A, p, rfl, rfl, spells, stands⟩ := first.exists_phrase .expr one
    obtain ⟨t, rfl, sign, _⟩ := second.exists_token two
    obtain ⟨v, B, q, rfl, rfl, spells', stands'⟩ := third.exists_phrase .term three
    refine ⟨.expr, .sum A B, rfl, by simpa [Item.tokens] using spells.sum sign spells', ?_⟩
    exact reduced.binary (rule number rfl) rfl rfl stands stands' answered_sum
      (fun fits => ⟨fits.1, fits.2.1⟩) rfl tallied
  · cases there
    obtain ⟨_, _, rfl, rfl, one, first⟩ := Held.exists_one held symbols
    obtain ⟨u, A, p, rfl, rfl, spells, stands⟩ := first.exists_phrase .term one
    refine ⟨.expr, A, rfl, by simpa [Item.tokens] using spells.term, ?_⟩
    exact reduced.copied (rule number rfl) rfl rfl stands tallied
  · cases there
    obtain ⟨_, _, _, _, attrs, _, rfl, rfl, ⟨one, first⟩, ⟨two, second⟩, three, third⟩ :=
      Held.exists_three held symbols
    obtain ⟨u, A, p, rfl, rfl, spells, stands⟩ := first.exists_phrase .term one
    obtain ⟨t, rfl, sign, _⟩ := second.exists_token two
    obtain ⟨v, B, q, rfl, rfl, spells', stands'⟩ := third.exists_phrase .factor three
    refine ⟨.term, .product A B, rfl, by simpa [Item.tokens] using spells.product sign spells', ?_⟩
    exact reduced.binary (rule number rfl) rfl rfl stands stands' answered_product
      (fun fits => ⟨fits.1, fits.2.1⟩) rfl tallied
  · cases there
    obtain ⟨_, _, rfl, rfl, one, first⟩ := Held.exists_one held symbols
    obtain ⟨u, A, p, rfl, rfl, spells, stands⟩ := first.exists_phrase .factor one
    refine ⟨.term, A, rfl, by simpa [Item.tokens] using spells.factor, ?_⟩
    exact reduced.copied (rule number rfl) rfl rfl stands tallied
  · cases there
    obtain ⟨_, _, _, attrs, _, attrs', rfl, rfl, ⟨one, first⟩, ⟨two, second⟩, three, third⟩ :=
      Held.exists_three held symbols
    obtain ⟨opening, rfl, opens, _⟩ := first.exists_token one
    obtain ⟨u, A, p, rfl, rfl, spells, stands⟩ := second.exists_phrase .expr two
    obtain ⟨closing, rfl, closes, _⟩ := third.exists_token three
    refine ⟨.factor, A, rfl, by simpa [Item.tokens] using spells.group opens closes, ?_⟩
    exact reduced.copied (rule number rfl) rfl rfl stands tallied
  · cases there
    obtain ⟨_, _, rfl, rfl, one, first⟩ := Held.exists_one held symbols
    obtain ⟨t, rfl, digits, plain, carries⟩ := first.exists_token one
    obtain ⟨text, carried, numeral⟩ := plain.numeral digits
    obtain ⟨n, pos, rfl, resolves⟩ := carries text carried
    refine ⟨.factor, .number text, rfl, .number digits carried, ?_⟩
    refine reduced.applied (rule number rfl) [] rfl
      (.cons rfl .nil) (.cons resolves .nil) ?_ ?_ (fun _ => List.forall_mem_nil _) rfl tallied
    · simp [Node.isError]
    · intro call function params _
      exact answered_number function (by simp [Call.text?, params]) numeral
  · cases there

end GrammarMachine.Samples.Calculator
