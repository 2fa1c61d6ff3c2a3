import GrammarMachine.Proofs.Parse.Clean
import GrammarMachine.Proofs.Parse.Lists
import GrammarMachine.Proofs.Parse.Termination

/-!
Lists of any length are summed. What is on the stack tells how far a parse has come: numbers with
commas behind them, a list whose sums wait, or the total, when all of them have been computed. Every
step leads from one of these stages to the next, as long as no error of the text is met.
-/

namespace GrammarMachine

open Evaluation

namespace Samples.Summation

section Stages

variable {graph graph' : Graph Int} {e e' : Evaluation Machine Int} {f top base : Frame}
  {frames below under : List Frame} {read : List Token} {t : Token} {n : Nonterminal} {o : Origin}
  {a : Action} {ts : List String} {acc sum : Nat}

/-- The attribute of a number that has been shifted. -/
def Carries (graph : Graph Int) (attrs : List Nat) (text : String) : Prop :=
  ∃ q pos, attrs = [q] ∧ graph.Resolves q (.text text pos false)

theorem Carries.grows {attrs : List Nat} {text : String} (carries : Carries graph attrs text)
    (grows : graph.Grows graph') (linked : graph'.Linked) : Carries graph' attrs text := by
  obtain ⟨q, pos, named, resolves⟩ := carries
  exact ⟨q, pos, named, resolves.grows grows linked⟩

/-- The frames of a stack that waits for a number, and the tokens in them. -/
inductive Opened (graph : Graph Int) : List Frame → List Token → Prop
  | bottom {f : Frame} (state : f.state = 0) : Opened graph [f] []
  | more {f f' : Frame} {frames : List Frame} {read : List Token} {t s : Token} {text : String}
      (below : Opened graph frames read) (denotes : Denotes t text)
      (carries : Carries graph f.attrs text) (separates : s.id = comma) (state : f'.state = 4) :
      Opened graph (f' :: f :: frames) (read ++ [t, s])

namespace Opened

theorem grows (opened : Opened graph frames read) (grows : graph.Grows graph')
    (linked : graph'.Linked) : Opened graph' frames read := by
  induction opened with
  | bottom state => exact .bottom state
  | more _ denotes carries separates state ih =>
    exact .more ih denotes (carries.grows grows linked) separates state

theorem state_cases (opened : Opened graph (f :: frames) read) : f.state = 0 ∨ f.state = 4 := by
  cases opened with
  | bottom state => exact .inl state
  | more _ _ _ _ state => exact .inr state

end Opened

/-- So many sums have been put off, and nothing has been asked of the host. -/
structure Waits (n : Nat) (e : Evaluation Machine Int) : Prop where
  unlocked : e.control.locked = false
  counts : tally e = ⟨n, 0, 0, 0, []⟩

theorem Waits.shifting {k : Nat} (waits : Waits k e) (t : Token) : Waits k (e.shifting t).2 := by
  obtain ⟨unlocked, counts⟩ := waits
  unfold Evaluation.shifting Config.tokenAttrs
  cases t.text <;> exact ⟨unlocked, counts⟩

theorem Waits.reducing {k : Nat} (waits : Waits k e) (o : Origin) (n : Nonterminal) :
    Waits k (e.reducing o n).2 := by
  rw [reducing_eq]
  exact ⟨waits.unlocked, waits.counts⟩

theorem Deferred.waits {k : Nat} (deferred : Deferred e e') (waits : Waits k e) :
    Waits (k + 1) e' := by
  refine ⟨deferred.control ▸ waits.unlocked, ?_⟩
  rw [deferred.tally, waits.counts]
  have same : e.stats.deferred = k := congrArg Tally.deferred waits.counts
  rw [same]

theorem Folded.reducing (folded : Folded e.graph acc sum ts) (o : Origin) (n : Nonterminal)
    (grows : e.graph.Grows (e.reducing o n).2.graph) (linked : (e.reducing o n).2.graph.Linked) :
    Folded (e.reducing o n).2.graph acc sum ts := by
  obtain ⟨ns, last, chain, walk⟩ := folded
  have pending := chain.pending
  have chain' := chain.congr (fun k mem => by
    obtain ⟨_, here⟩ := pending k mem
    exact getElem?_reducing_old (Graph.lt_size here) o n) grows linked
  obtain ⟨_, here⟩ := chain'.last_pending
  exact ⟨ns, last, chain', grows.representative linked walk here rfl⟩

/-- The sum of a list, with all that is told of it in the end. -/
def summed (ts : List String) : Option Int × Tally :=
  (ts.map worth).foldl step (some 0, ⟨ts.length, 0, 1, 0, [(zero, 0)]⟩)

/-- What stands on the stack, and the tokens that have become of it. -/
inductive Stage (e : Evaluation Machine Int) : List Frame → List Token → Prop
  /-- A number has to come next. -/
  | expecting {frames : List Frame} {read : List Token} (opened : Opened e.graph frames read)
      (waits : Waits 0 e) : Stage e frames read
  /-- A number has been shifted. -/
  | numbered {f : Frame} {frames : List Frame} {read : List Token} {t : Token} {text : String}
      (opened : Opened e.graph frames read) (denotes : Denotes t text)
      (carries : Carries e.graph f.attrs text) (state : f.state = 2) (waits : Waits 0 e) :
      Stage e (f :: frames) (read ++ [t])
  /-- From some number on, all are in a list, and the sums of the list wait. -/
  | gathered {f base : Frame} {under : List Frame} {read ts : List Token} {acc sum : Nat}
      {text : String} {texts : List String} (opened : Opened e.graph (base :: under) read)
      (state : base.state = 0 ∧ f.state = 3 ∨ base.state = 4 ∧ f.state = 5)
      (attrs : f.attrs = [acc, sum]) (listed : Listed ts (text :: texts))
      (folded : Folded e.graph acc sum (text :: texts)) (waits : Waits (texts.length + 1) e) :
      Stage e (f :: base :: under) (read ++ ts)
  /-- All is in the total, and the sums have been computed. -/
  | totalled {f base : Frame} {ts : List Token} {val : Nat} {texts : List String} {node : Node Int}
      (state : f.state = 1) (attrs : f.attrs = [val]) (listed : Listed ts texts)
      (resolves : e.graph.Resolves val node) (holds : Holds (summed texts).1 node)
      (counts : tally e = (summed texts).2) : Stage e [f, base] ts

namespace Stage

/-- A number or a comma is shifted. -/
theorem shift (stage : Stage e (top :: below) read)
    (entry : grammar.entry? top.state t.id = some a) (kind : a.kind = .shift)
    (numeral : t.id = number → ∃ text, Denotes t text ∧
      Carries (e.shifting t).2.graph (e.shifting t).1 text)
    (grows : e.graph.Grows (e.shifting t).2.graph) (linked : (e.shifting t).2.graph.Linked) :
    Stage (e.shifting t).2 (⟨a.aux, (e.shifting t).1, o⟩ :: top :: below) (read ++ [t]) := by
  have shifts := shift_cases entry kind
  cases stage with
  | expecting opened waits =>
    rcases opened.state_cases with state | state
    all_goals
      rw [state] at shifts
      obtain ⟨digits, target⟩ : t.id = number ∧ a.aux = 2 := by simpa using shifts
      obtain ⟨text, denotes, carries⟩ := numeral digits
      exact .numbered (opened.grows grows linked) denotes carries target (waits.shifting t)
  | numbered opened denotes carries state waits =>
    rw [state] at shifts
    obtain ⟨separates, target⟩ : t.id = comma ∧ a.aux = 4 := by simpa using shifts
    rw [List.append_assoc]
    exact .expecting (.more (opened.grows grows linked) denotes (carries.grows grows linked)
      separates target) (waits.shifting t)
  | gathered _ state =>
    rcases state with ⟨_, state⟩ | ⟨_, state⟩
    all_goals
      rw [state] at shifts
      simp at shifts
  | totalled state =>
    rw [state] at shifts
    simp at shifts

end Stage

section Reducing

variable {target : UInt32} {text : String}

/-- A list has two attributes, both of them new. -/
theorem attributes_list (lhs : grammar.nonterminals[items.toNat]? = some n) (o : Origin)
    (e : Evaluation Machine Int) :
    (e.reducing o n).1 = [e.graph.size, e.graph.size + 1] ∧
      (e.reducing o n).2.graph.nodes[e.graph.size]? = some (.pending ⟨none, [], o⟩) ∧
      (e.reducing o n).2.graph.nodes[e.graph.size + 1]? = some (.pending ⟨none, [], o⟩) := by
  have count : n.attributeCount = 2 := by
    cases lhs
    rfl
  have named : (e.reducing o n).1 = [e.graph.size, e.graph.size + 1] := by
    rw [reducing_eq, count]
    rfl
  exact ⟨named, getElem?_reducing_new (by simp [named]), getElem?_reducing_new (by simp [named])⟩

theorem goto_list (lhs : grammar.nonterminals[items.toNat]? = some n) :
    n.goto? 0 = some 3 ∧ n.goto? 4 = some 5 := by
  cases lhs
  decide +kernel

theorem goto_total (lhs : grammar.nonterminals[total.toNat]? = some n) : n.goto? 0 = some 1 := by
  cases lhs
  decide +kernel

/-- A list stands on what waited for a number. -/
theorem Stage.of_goto (lhs : grammar.nonterminals[items.toNat]? = some n)
    (goto : n.goto? base.state = some target) (opened : Opened e'.graph (base :: under) read)
    {tokens : List Token} (listed : Listed tokens (text :: ts))
    (folded : Folded e'.graph acc sum (text :: ts)) (waits : Waits (ts.length + 1) e') :
    Stage e' (⟨target, [acc, sum], o⟩ :: base :: under) (read ++ tokens) := by
  refine .gathered opened ?_ rfl listed folded waits
  obtain ⟨first, second⟩ := goto_list lhs
  rcases opened.state_cases with state | state
  · rw [state, first] at goto
    exact .inl ⟨state, (Option.some.inj goto).symm⟩
  · rw [state, second] at goto
    exact .inr ⟨state, (Option.some.inj goto).symm⟩

/-- The last number of a list becomes a list. -/
theorem Stage.reduce_number (stage : Stage e (top :: base :: under) read) (state : top.state = 2)
    (lhs : grammar.nonterminals[items.toNat]? = some n) (goto : n.goto? base.state = some target)
    (grows : e.graph.Grows (e.reducing o n).2.graph)
    (ran : Ran grammar host 2 (e.reducing o n).1 [top.attrs] (e.reducing o n).2 e') :
    Stage e' (⟨target, (e.reducing o n).1, o⟩ :: base :: under) read := by
  obtain ⟨named, fresh, fresh'⟩ := attributes_list lhs o e
  rw [named] at ran ⊢
  cases stage with
  | numbered opened denotes carries _ waits =>
    obtain ⟨q, pos, attrs, number⟩ := carries.grows grows ran.sound.graph.linked
    rw [attrs] at ran
    obtain ⟨folded, deferred⟩ :=
      folded_one fresh fresh' (Nat.ne_of_lt (Nat.lt_succ_self _)) number ran
    exact .of_goto lhs goto (opened.grows (grows.trans ran.grows) ran.sound'.graph.linked)
      (.one denotes) folded (deferred.waits (waits.reducing o n))
  | expecting opened =>
    have other := opened.state_cases
    simp [state] at other
  | gathered _ other => simp [state] at other
  | totalled other => simp [state] at other

/-- A number in front of a list makes it longer. -/
theorem Stage.reduce_list (stage : Stage e (top :: below) read) (state : top.state = 5)
    (popped : (top :: below).drop 3 = base :: under)
    (lhs : grammar.nonterminals[items.toNat]? = some n) (goto : n.goto? base.state = some target)
    (grows : e.graph.Grows (e.reducing o n).2.graph)
    (ran : Ran grammar host 1 (e.reducing o n).1
      (((top :: below).take 3).reverse.map Frame.attrs) (e.reducing o n).2 e') :
    Stage e' (⟨target, (e.reducing o n).1, o⟩ :: base :: under) read := by
  obtain ⟨named, fresh, fresh'⟩ := attributes_list lhs o e
  rw [named] at ran ⊢
  cases stage with
  | gathered opened _ attrs listed folded waits =>
    cases opened with
    | bottom => cases popped
    | more opened denotes carries separates =>
      -- The list is popped with the comma and the number below it.
      cases popped
      obtain ⟨q, pos, attrs', number⟩ := carries.grows grows ran.sound.graph.linked
      simp only [List.take_succ_cons, List.take_zero, List.reverse_cons, List.reverse_nil,
        List.nil_append, List.cons_append, List.map_cons, List.map_nil, attrs, attrs'] at ran
      have folded := folded.reducing o n grows ran.sound.graph.linked
      obtain ⟨folded, deferred⟩ :=
        folded.more fresh fresh' (Nat.ne_of_lt (Nat.lt_succ_self _)) number ran
      rw [List.append_assoc]
      exact .of_goto lhs goto (opened.grows (grows.trans ran.grows) ran.sound'.graph.linked)
        (.more denotes separates listed) folded (deferred.waits (waits.reducing o n))
  | expecting opened =>
    have other := opened.state_cases
    simp [state] at other
  | numbered _ _ _ other => simp [state] at other
  | totalled other => simp [state] at other

/-- The whole list becomes the total. -/
theorem Stage.reduce_total (stage : Stage e (top :: base :: under) read) (state : top.state = 3)
    (lhs : grammar.nonterminals[total.toNat]? = some n) (goto : n.goto? base.state = some target)
    (grows : e.graph.Grows (e.reducing o n).2.graph)
    (ran : Ran grammar host 0 (e.reducing o n).1 [top.attrs] (e.reducing o n).2 e') :
    Stage e' (⟨target, (e.reducing o n).1, o⟩ :: base :: under) read := by
  have one : n.attributeCount = 1 := by
    cases lhs
    rfl
  have named : (e.reducing o n).1 = [e.graph.size] := by rw [reducing_of_one one]
  have fresh := getElem?_reducing_new (e := e) (o := o) (n := n) (i := e.graph.size)
    (named ▸ List.mem_singleton_self _)
  rw [named] at ran ⊢
  cases stage with
  | gathered opened bottom attrs listed folded waits =>
    have zero : base.state = 0 := by simpa [state] using bottom
    cases opened with
    | more _ _ _ _ four => simp [zero] at four
    | bottom =>
      rw [attrs] at ran
      have folded := folded.reducing o n grows ran.sound.graph.linked
      have waits := waits.reducing o n
      obtain ⟨node, resolves, holds, counts⟩ :=
        folded.summed fresh listed.numerals waits.unlocked ran
      rw [waits.counts] at holds counts
      rw [zero, goto_total lhs] at goto
      exact .totalled (Option.some.inj goto).symm rfl listed resolves holds counts
  | expecting opened =>
    have other := opened.state_cases
    simp [state] at other
  | numbered _ _ _ other => simp [state] at other
  | totalled other => simp [state] at other

end Reducing

end Stages

/-- Between two steps of a parse that has met no error of the text: the stack stands for all tokens
but those that are left. -/
structure Working (all : List Token) (last : Lexer) (c : Config Machine Int) : Prop where
  sound : c.Sound grammar
  free : c.lexer.stuck = false
  silent : c.lexer.diagnostics = #[]
  spelled : Lexer.Spelled grammar c.lookahead
  tokens : ∃ read rest, all = read ++ rest ∧ Stage c.eval c.stack read ∧
    Lexer.Leaves grammar c.lookahead c.lexer rest last

/-- The total is left on the stack, and it stands for all tokens. -/
structure Complete (all : List Token) (last : Lexer) (texts : List String)
    (c : Config Machine Int) : Prop where
  linked : c.eval.graph.Linked
  listed : Listed all texts
  root : ∃ val node, (c.stack.head?.bind fun top => top.attrs.head?) = some val ∧
    c.eval.graph.Resolves val node ∧ Holds (summed texts).1 node
  counts : tally c.eval = (summed texts).2
  silent : last.diagnostics = #[]

/-- What a step comes to that has met no error of the text. -/
def Onward (all : List Token) (last : Lexer) : Progress (Config Machine Int) → Prop
  | .more c => Working all last c
  | .done _ c => ∃ texts, Complete all last texts c

namespace Working

variable {all : List Token} {last : Lexer} {c c' : Config Machine Int} {top : Frame}
  {below : List Frame} {a : Action}

theorem shift (working : Working all last c) (stack : c.stack = top :: below)
    (entry : grammar.entry? top.state c.lookahead.id = some a) (kind : a.kind = .shift)
    (shifted : c.shift grammar host a.aux = .ok c') (healthy : c'.Sound grammar)
    (grows : c.eval.graph.Grows c'.eval.graph) (clean : c'.eval.Clean) : Working all last c' := by
  obtain ⟨sound₀, free, silent, spelled, read, rest, whole, stage, leaves⟩ := working
  obtain ⟨next, silent', eval, stack'⟩ := Config.shift_eq_clean shifted clean
  have sound := Grammar.sound_of_check check_grammar
  obtain ⟨spelled', free'⟩ := Lexer.spelled_nextFrom sound sound₀.faithful free next silent'
  have linked := healthy.eval.graph.linked
  rw [eval] at grows linked
  have numeral : c.lookahead.id = number → ∃ text, Denotes c.lookahead text ∧
      Carries (c.eval.shifting c.lookahead).2.graph (c.eval.shifting c.lookahead).1 text := by
    intro digits
    obtain ⟨text, carried, numeral⟩ := numeral_of_spelled spelled digits
    obtain ⟨attrs, graph⟩ := shifting_of_text carried c.eval
    refine ⟨text, ⟨digits, carried, numeral⟩, _, c.lookahead.origin.pos, attrs,
      Graph.resolves_of_plain ?_ rfl rfl⟩
    rw [graph, Graph.getElem?_alloc, if_pos rfl, spelled.clean]
  obtain ⟨others, rfl, later⟩ :=
    leaves.next (beq_eq_false_iff_ne.2 (endsLast.shift entry kind)) next
  refine ⟨healthy, free', silent', spelled', read ++ [c.lookahead], others, ?_, ?_, later⟩
  · rw [whole, List.append_assoc, List.singleton_append]
  · rw [eval, stack', stack]
    rw [stack] at stage
    exact stage.shift entry kind numeral grows linked

theorem reduce (working : Working all last c) (stack : c.stack = top :: below)
    (entry : grammar.entry? top.state c.lookahead.id = some a) (kind : a.kind = .reduce)
    (reduced : c.reduce grammar host a.aux = .ok (.more c')) (healthy : c'.Sound grammar) :
    Working all last c' := by
  obtain ⟨sound₀, free, silent, spelled, read, rest, whole, stage, leaves⟩ := working
  have sound := Grammar.sound_of_check check_grammar
  obtain ⟨r, n, base, under, target, o, rule, popped, lhs, goto, ran, stack', lexer, lookahead⟩ :=
    Config.reduce_eq_more reduced
  obtain ⟨ran, grows⟩ := ran_of_reducing sound sound₀ (Array.getElem?_eq_some_iff.1 rule).1 ran
  refine ⟨healthy, lexer ▸ free, lexer ▸ silent, lookahead ▸ spelled, read, rest, whole, ?_,
    lexer ▸ lookahead ▸ leaves⟩
  rw [stack']
  rw [stack] at stage popped ran
  rcases reduce_cases entry kind with ⟨state, id⟩ | ⟨state, id⟩ | ⟨state, id⟩
  · rw [id] at rule ran
    cases rule
    cases popped
    exact stage.reduce_number state lhs goto grows ran
  · rw [id] at rule ran
    cases rule
    cases popped
    exact stage.reduce_total state lhs goto grows ran
  · rw [id] at rule ran
    cases rule
    exact stage.reduce_list state popped lhs goto grows ran

theorem accept (working : Working all last c) (stack : c.stack = top :: below)
    (entry : grammar.entry? top.state c.lookahead.id = some a) (kind : a.kind = .accept) :
    ∃ texts, Complete all last texts c := by
  obtain ⟨sound₀, _, silent, _, read, rest, whole, stage, leaves⟩ := working
  obtain ⟨state, ended⟩ := accept_cases entry kind
  obtain ⟨rfl, rfl⟩ := leaves.none_left (beq_iff_eq.2 ended)
  rw [List.append_nil] at whole
  subst whole
  rw [stack] at stage
  cases stage with
  | totalled _ attrs listed resolves holds counts =>
    exact ⟨_, sound₀.eval.graph.linked, listed, ⟨_, _, by simp [stack, attrs], resolves, holds⟩,
      counts, silent⟩
  | expecting opened =>
    have other := opened.state_cases
    simp [state] at other
  | numbered _ _ _ other => simp [state] at other
  | gathered _ other => simp [state] at other

end Working

/-- No step loses anything, unless it meets an error of the text. -/
theorem keeps (all : List Token) (last : Lexer) :
    Config.Keeps grammar host (Onward all last) where
  sound := Working.sound
  shift := Working.shift
  reduce := Working.reduce
  accept := Working.accept

/-- The first token has been read. -/
theorem working_start {source : Source} {all : List Token} {last : Lexer} {k : Nat}
    {c : Config Machine Int}
    (delivered : Lexer.tokensFrom grammar k (Lexer.start source) = .ok (all, last))
    (begun : Config.start grammar host source Options.default.control (Machine.start false) = .ok c)
    (clean : c.eval.Clean) : Working all last c := by
  have sound := Grammar.sound_of_check check_grammar
  obtain ⟨t, l, next, leaves⟩ := Lexer.leaves_of_tokensFrom delivered
  obtain ⟨_, same, healthy, _⟩ := Config.yields_start sound host source Options.default.control
    (Machine.start false)
  cases begun.symm.trans same
  obtain ⟨_, pulled, rest⟩ := bind_eq_ok_iff.1 begun
  cases rest
  obtain ⟨next', silent, eval⟩ := Config.pull_eq_clean pulled clean
  cases next.symm.trans next'
  obtain ⟨spelled, free⟩ :=
    Lexer.spelled_nextFrom sound (Cursor.faithful_start source) rfl next silent
  refine ⟨healthy, free, silent, spelled, [], all, rfl, .expecting (.bottom rfl) ?_, leaves⟩
  dsimp only
  rw [eval]
  exact ⟨rfl, rfl⟩

/-- What is told of a parse that sums these numbers: all sums have been put off, and all have been
attempted again. If numbers and sums are small, the last sum is the value of the root; otherwise the
first one that is not is refused, and nothing is computed behind it. -/
structure Sums (as : List Int) (outcome : Outcome Machine Int) : Prop where
  deferred : outcome.stats.deferred = as.length
  replays : outcome.stats.replays = as.length
  fits : (∀ k < as.length, FitsFrom 0 as k) →
    outcome.isClean = true ∧ outcome.rootValue? = .ok (some as.sum) ∧
      outcome.stats.hardCalls = as.length + 1 ∧ outcome.host.trace.toList =
        (zero, 0) :: (List.range as.length).map fun k => (add, (as.take (k + 1)).sum)
  unfit : ∀ k < as.length, ¬FitsFrom 0 as k → (∀ j < k, FitsFrom 0 as j) →
    outcome.rootValue? = .ok none ∧ outcome.stats.semanticErrors = 1 ∧
      outcome.stats.hardCalls = k + 2 ∧ outcome.host.trace.toList =
        (zero, 0) :: (List.range k).map fun j => (add, (as.take (j + 1)).sum)

theorem summed_of_fits {ts : List String}
    (fits : ∀ k < (ts.map worth).length, FitsFrom 0 (ts.map worth) k) :
    summed ts = (some (ts.map worth).sum, ⟨ts.length, ts.length, ts.length + 1, 0,
      (zero, 0) :: (List.range (ts.map worth).length).map fun k =>
        (add, ((ts.map worth).take (k + 1)).sum)⟩) := by
  rw [summed, foldl_step_of_fits _ fits]
  simp [Nat.add_comm]

theorem summed_of_unfit {ts : List String} {k : Nat} (lt : k < (ts.map worth).length)
    (unfit : ¬FitsFrom 0 (ts.map worth) k) (fits : ∀ j < k, FitsFrom 0 (ts.map worth) j) :
    summed ts = (none, ⟨ts.length, ts.length, k + 2, 1,
      (zero, 0) :: (List.range k).map fun j => (add, ((ts.map worth).take (j + 1)).sum)⟩) := by
  rw [summed, foldl_step_of_unfit _ lt unfit fits, Nat.add_comm 1]
  simp

theorem Complete.sums {all : List Token} {last : Lexer} {texts : List String}
    {c : Config Machine Int} (complete : Complete all last texts c)
    (ok : (Outcome.ofConfig true c).ok = true) : Sums (texts.map worth) (.ofConfig true c) := by
  obtain ⟨linked, _, ⟨val, node, root, resolves, holds⟩, counts, _⟩ := complete
  have value : (Outcome.ofConfig true c).rootValue? = .ok (summed texts).1 := by
    rw [Outcome.rootValue?_ofConfig linked root resolves]
    generalize (summed texts).1 = acc at holds
    cases holds <;> rfl
  -- What is told of the evaluation is told of the outcome.
  have told : (⟨(Outcome.ofConfig true c).stats.deferred, (Outcome.ofConfig true c).stats.replays,
      (Outcome.ofConfig true c).stats.hardCalls, (Outcome.ofConfig true c).stats.semanticErrors,
      (Outcome.ofConfig true c).host.trace.toList⟩ : Tally) = (summed texts).2 := counts
  obtain ⟨deferred, replays⟩ := replays_foldl_step
    (some 0, ⟨texts.length, 0, 1, 0, [(zero, 0)]⟩) (texts.map worth)
  refine ⟨?_, ?_, fun fits => ?_, fun k lt unfit fits => ?_⟩
  · rw [List.length_map]
    exact (congrArg Tally.deferred told).trans deferred
  · exact (congrArg Tally.replays told).trans (replays.trans (Nat.zero_add _))
  · rw [summed_of_fits fits] at value told
    obtain ⟨_, _, calls, none, trace⟩ := Tally.mk.inj told
    refine ⟨?_, value, by rw [calls, List.length_map], trace⟩
    rw [Outcome.isClean, ok, none]
    rfl
  · rw [summed_of_unfit lt unfit fits] at value told
    obtain ⟨_, _, calls, one, trace⟩ := Tally.mk.inj told
    exact ⟨value, one, calls, trace⟩

end Samples.Summation

open Samples.Summation
open Samples.Calculator (IsNumeral)

/-- A list of any length is summed from the left. A parse of any text comes to an outcome, and it
succeeds exactly if the tokens of the text come without a diagnostic and are numbers with a comma
between any two; then the sums are those of the numbers that the tokens carry. -/
theorem summation_sums_any_list (source : Source) :
    ∃ tokens ds, (Lexer.start source).tokens grammar = .ok (tokens, ds) ∧
      (∃ fuel outcome, parse grammar host .default fuel source (Machine.start false) =
        .ok (some outcome)) ∧
      ∀ fuel outcome, parse grammar host .default fuel source (Machine.start false) =
          .ok (some outcome) →
        (outcome.ok = true ↔ ds = [] ∧
          ∃ k, tokens.map Token.id = number :: (List.replicate k [comma, number]).flatten) ∧
        (outcome.ok = true → ∃ numerals : List String,
          (tokens.filter fun t => t.id == number).map Token.text = numerals.map some ∧
          (∀ text ∈ numerals, IsNumeral text) ∧ Sums (numerals.map worth) outcome) := by
  have sound := Grammar.sound_of_check check_grammar
  have faithful : (Lexer.start source).cursor.Faithful := Cursor.faithful_start source
  obtain ⟨⟨tokens, ds⟩, all, _⟩ := Lexer.yields_tokens sound faithful
  refine ⟨tokens, ds, all, ?_, fun fuel outcome ends => ?_⟩
  · exact exists_parseUnder sound terminating host _ _ source _
  · obtain ⟨⟨_, last⟩, delivered, same⟩ := bind_eq_ok_iff.1 all
    cases same
    -- A parse that succeeds has come to the total.
    have summed : outcome.ok = true → last.diagnostics = #[] ∧
        ∃ texts, Listed tokens texts ∧ Sums (texts.map worth) outcome := by
      intro ok
      obtain ⟨c, begun, run⟩ := bind_eq_ok_iff.1 ends
      have working := working_start delivered begun (Config.clean_of_ok run ok)
      obtain ⟨c', ⟨texts, complete⟩, rfl⟩ := (keeps tokens last).run sound working run ok
      exact ⟨complete.silent, texts, complete.listed, complete.sums ok⟩
    refine ⟨⟨fun ok => ?_, ?_⟩, fun ok => ?_⟩
    · obtain ⟨silent, texts, listed, _⟩ := summed ok
      exact ⟨by rw [silent], listed.ids⟩
    · rintro ⟨silent, k, ids⟩
      rw [ok_parse_iff host_patient endsLast rfl ends, ← Lexer.tokens_quiet_iff sound faithful]
      exact ⟨tokens, silent ▸ all, ids ▸ Open.bottom.accepts k⟩
    · obtain ⟨_, texts, listed, sums⟩ := summed ok
      exact ⟨texts, listed.texts_eq, listed.numerals, sums⟩

/-- A list of three numbers, and one whose second sum is beyond 64 bits. -/
theorem short_lists_are_summed :
    (∃ outcome, parse grammar host .default 40 (.ofText "1, 20,3" false) (Machine.start false) =
        .ok (some outcome) ∧ outcome.ok = true ∧ outcome.isClean = true ∧
      outcome.rootValue? = .ok (some 24) ∧ outcome.stats.replays = 3 ∧
      outcome.host.trace.toList = [(zero, 0), (add, 1), (add, 21), (add, 24)]) ∧
    ∃ outcome, parse grammar host .default 40 (.ofText "9223372036854775807,1,2" false)
        (Machine.start false) = .ok (some outcome) ∧ outcome.ok = true ∧
      outcome.rootValue? = .ok none ∧ outcome.stats.replays = 3 ∧
      outcome.stats.semanticErrors = 1 ∧ outcome.stats.hardCalls = 3 ∧
      outcome.host.trace.toList = [(zero, 0), (add, 9223372036854775807)] := by
  -- The tokens are known by running the lexer, and the numbers by their texts.
  have numbers : ∀ (text : String) (texts : List String) {outcome : Outcome Machine Int},
      ((Lexer.start (.ofText text false)).tokens grammar).toOption.map (fun found =>
        (found.1.filter fun t => t.id == number).map Token.text) = some (texts.map some) →
      parse grammar host .default 40 (.ofText text false) (Machine.start false) =
        .ok (some outcome) → outcome.ok = true → Sums (texts.map worth) outcome := by
    intro text texts outcome lexed ends ok
    obtain ⟨tokens, ds, all, _, parsed⟩ := summation_sums_any_list (.ofText text false)
    obtain ⟨numerals, carried, _, sums⟩ := (parsed 40 outcome ends).2 ok
    rw [all] at lexed
    have same : numerals.map some = texts.map some := carried.symm.trans (Option.some.inj lexed)
    rwa [List.map_injective_iff.2 (Option.some_injective _) same] at sums
  constructor
  · obtain ⟨outcome, ends, ok⟩ : ∃ outcome, parse grammar host .default 40
        (.ofText "1, 20,3" false) (Machine.start false) = .ok (some outcome) ∧ outcome.ok = true :=
      exists_of_run (by decide +kernel)
    have sums := numbers "1, 20,3" ["1", "20", "3"] (by decide +kernel) ends ok
    rw [show ["1", "20", "3"].map worth = [1, 20, 3] by decide +kernel] at sums
    obtain ⟨clean, value, _, trace⟩ := sums.fits (by decide +kernel)
    exact ⟨outcome, ends, ok, clean, value, sums.replays, trace⟩
  · obtain ⟨outcome, ends, ok⟩ : ∃ outcome, parse grammar host .default 40
        (.ofText "9223372036854775807,1,2" false) (Machine.start false) = .ok (some outcome) ∧
          outcome.ok = true :=
      exists_of_run (by decide +kernel)
    have sums := numbers "9223372036854775807,1,2" ["9223372036854775807", "1", "2"]
      (by decide +kernel) ends ok
    rw [show ["9223372036854775807", "1", "2"].map worth = [9223372036854775807, 1, 2] by
      decide +kernel] at sums
    obtain ⟨value, one, calls, trace⟩ := sums.unfit 1 (by decide) (by decide +kernel)
      (by decide +kernel)
    exact ⟨outcome, ends, ok, value, sums.replays, one, calls, trace⟩

end GrammarMachine
