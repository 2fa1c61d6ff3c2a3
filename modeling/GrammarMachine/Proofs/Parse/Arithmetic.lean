import GrammarMachine.Proofs.Evaluation.Arithmetic
import GrammarMachine.Proofs.Parse.Clean

/-!
The calculator computes arithmetic. What has been shifted and reduced so far stands on the stack as
tokens and phrases, each with the expression that its tokens spell, and the nodes of the frames
stand for these expressions. Every step keeps this, as long as no error of the text is met, and an
error of the text is never forgotten. In the end one phrase is left, with all tokens in it.
-/

namespace GrammarMachine

open Evaluation

namespace Samples.Calculator

/-- The frames of a stack above the bottom hold these items, and their states follow the edges. -/
inductive Stacked (graph : Graph Int) : List Frame → List Item → Prop
  | bottom {f : Frame} (state : f.state = 0) : Stacked graph [f] []
  | push {f f' : Frame} {frames : List Frame} {item : Item} {items : List Item}
      (below : Stacked graph (f :: frames) items)
      (edge : ⟨f.state, item.symbol, f'.state⟩ ∈ chart.edges) (held : Held graph item f'.attrs) :
      Stacked graph (f' :: f :: frames) (item :: items)

namespace Stacked

variable {graph graph' : Graph Int} {frames under : List Frame} {f base : Frame}
  {items : List Item}

theorem grows (stacked : Stacked graph frames items) (grows : graph.Grows graph')
    (linked : graph'.Linked) : Stacked graph' frames items := by
  induction stacked with
  | bottom state => exact .bottom state
  | push _ edge held ih => exact .push ih edge (held.grows grows linked)

/-- Items off the top, and the way that their symbols lead. -/
theorem pop (stacked : Stacked graph (f :: frames) items) {n : Nat}
    (popped : (f :: frames).drop n = base :: under) :
    ∃ top rest, items = top ++ rest ∧
      ((top.map Item.symbol).reverse, base.state) ∈ chart.back n f.state ∧
      List.Forall₂ (Held graph) top (((f :: frames).take n).map Frame.attrs) ∧
      Stacked graph (base :: under) rest := by
  induction n generalizing f frames items with
  | zero =>
    cases popped
    exact ⟨[], items, rfl, by simp [Chart.back], .nil, stacked⟩
  | succ n ih =>
    cases stacked with
    | bottom => simp at popped
    | @push f' _ frames item items below edge held =>
      obtain ⟨top, rest, rfl, way, all, lower⟩ := ih below popped
      refine ⟨item :: top, rest, rfl, ?_, .cons held all, lower⟩
      rw [List.map_cons, List.reverse_cons]
      exact Chart.mem_back_succ way edge

theorem eq_nil (stacked : Stacked graph (f :: frames) items) (bottom : f.state = 0) :
    items = [] := by
  cases stacked with
  | bottom => rfl
  | push _ edge => exact absurd bottom ((chart_fits .hard).bottom _ edge)

end Stacked

section Nodes

variable {n : Nonterminal}

theorem attributeCount_eq : ∀ n ∈ (grammar .hard).nonterminals, n.attributeCount = 1 := by
  decide +kernel

/-- Running the rule of a reduction, for its one new attribute. -/
theorem Reduced.of_ran {e e' : Evaluation Machine Int} {id : UInt32} {rhs : List (List Nat)}
    {o : Origin} (one : n.attributeCount = 1)
    (ran : Ran (grammar .hard) host id (e.reducing o n).1 rhs (e.reducing o n).2 e') :
    Reduced id e.graph.size rhs (e.reducing o n).2 e' := by
  have alone : (e.reducing o n).1 = [e.graph.size] := by rw [reducing_of_one one]
  have fresh := getElem?_reducing_new (e := e) (o := o) (n := n) (i := e.graph.size)
    (alone ▸ List.mem_singleton_self _)
  exact ⟨ran.sound, ran.queue, ⟨o, fresh⟩, alone ▸ ran.result, ran.grows, ran.sound'.graph.linked⟩

theorem Tallied.reducing {es : List Expr} {e : Evaluation Machine Int} (tallied : Tallied es e)
    (o : Origin) (n : Nonterminal) : Tallied es (e.reducing o n).2 :=
  tallied.congr rfl rfl rfl

end Nodes

/-- Between two steps of a parse that has met no error of the text: these items are on the stack,
and together with the tokens that are left they are all there is. -/
structure Working (all : List Token) (last : Lexer) (items : List Item) (c : Config Machine Int) :
    Prop where
  sound : c.Sound (grammar .hard)
  stacked : Stacked c.eval.graph c.stack items
  tallied : Tallied (items.reverse.flatMap Item.trees) c.eval
  ready : Ready c.lexer
  silent : c.lexer.diagnostics = #[]
  plain : Plain c.lookahead
  tokens : ∃ rest, all = items.reverse.flatMap Item.tokens ++ rest ∧
    Lexer.Leaves (grammar .hard) c.lookahead c.lexer rest last

/-- One phrase is left on the stack, with all tokens in it. -/
structure Complete (all : List Token) (last : Lexer) (A : Expr) (c : Config Machine Int) :
    Prop where
  linked : c.eval.graph.Linked
  spells : Spells .expr all A
  root : ∃ n, (c.stack.head?.bind fun top => top.attrs.head?) = some n ∧ StandsAt c.eval.graph A n
  tallied : Tallied [A] c.eval
  silent : last.diagnostics = #[]

/-- What a step comes to that has met no error of the text. -/
def Onward (all : List Token) (last : Lexer) : Progress (Config Machine Int) → Prop
  | .more c => ∃ items, Working all last items c
  | .done _ c => ∃ A, Complete all last A c

theorem Complete.outcome {all : List Token} {last : Lexer} {A : Expr} {c : Config Machine Int}
    (complete : Complete all last A c) (ok : (Outcome.ofConfig true c).ok = true) :
    ((Outcome.ofConfig true c).isClean = true ↔ A.Fits) ∧
      (A.Fits → (Outcome.ofConfig true c).rootValue? = .ok (some A.value) ∧
        (Outcome.ofConfig true c).host.calls.toList = A.calls) ∧
      (¬A.Fits → (Outcome.ofConfig true c).rootValue? = .ok none ∧
        1 ≤ (Outcome.ofConfig true c).stats.semanticErrors) := by
  obtain ⟨linked, _, ⟨n, root, node, resolves, stands⟩, tallied, _⟩ := complete
  have value := Outcome.rootValue?_ofConfig linked root resolves
  rw [Outcome.isClean, ok, Bool.true_and, beq_iff_eq, value]
  have calls : A.Fits → _ := fun fits => tallied.calls (List.forall_mem_singleton.2 fits)
  have errors : ¬A.Fits → _ := fun unfit => tallied.errors ⟨A, List.mem_singleton_self A, unfit⟩
  refine ⟨⟨fun none => ?_, fun fits => (calls fits).1⟩, fun fits => ?_, fun unfit => ?_⟩
  · by_contra unfit
    exact absurd none (Nat.ne_of_gt (errors unfit))
  · obtain ⟨f, pos, rfl⟩ := stands.eq_user fits
    exact ⟨rfl, (calls fits).2.trans (List.flatMap_singleton ..)⟩
  · refine ⟨?_, errors unfit⟩
    cases stands with
    | value fits => exact absurd fits unfit
    | refusal => rfl
    | null => rfl

namespace Working

variable {all : List Token} {last : Lexer} {items : List Item} {c c' : Config Machine Int}
  {top : Frame} {below : List Frame} {a : Action}

theorem shift (working : Working all last items c) (stack : c.stack = top :: below)
    (entry : Grammar.entry? (grammar .hard) top.state c.lookahead.id = some a)
    (kind : a.kind = .shift) (shifted : c.shift (grammar .hard) host a.aux = .ok c')
    (healthy : c'.Sound (grammar .hard)) (grows : c.eval.graph.Grows c'.eval.graph)
    (clean : c'.eval.Clean) :
    Working all last (.token c.lookahead :: items) c' := by
  obtain ⟨_, stacked, tallied, ready, silent, plain, rest, whole, leaves⟩ := working
  obtain ⟨next, silent', eval, stack'⟩ := Config.shift_eq_clean shifted clean
  have sound := Grammar.sound_of_check (check_grammar .hard)
  have linked := healthy.eval.graph.linked
  -- The entry is for one terminal only, along an edge of the chart.
  obtain ⟨mem, low, high⟩ := Grammar.mem_entries sound entry (by simp [kind])
  obtain ⟨single, going, edge⟩ := (chart_fits .hard).shift _ mem kind
  dsimp only at single going edge
  rw [← single] at high
  have same : a.low = c.lookahead.id := UInt32.le_antisymm low high
  rw [same] at going edge
  obtain ⟨plain', ready'⟩ := plain_nextFrom ready next silent'
  refine ⟨healthy, ?_, ?_, ready', silent', plain', ?_⟩
  · rw [stack', stack]
    rw [stack] at stacked
    refine .push (stacked.grows grows linked) edge (.token plain fun text carried => ?_)
    obtain ⟨attrs, graph⟩ := shifting_of_text carried c.eval
    refine ⟨_, c.lookahead.origin.pos, attrs, Graph.resolves_of_plain ?_ rfl rfl⟩
    rw [eval, graph, Graph.getElem?_alloc, if_pos rfl, plain.clean]
  · rw [List.reverse_cons, List.flatMap_append, eval]
    obtain ⟨control, host, errors⟩ := shifting_tallies c.lookahead c.eval
    rw [List.flatMap_singleton, Item.trees, List.append_nil]
    exact tallied.congr control host errors
  · obtain ⟨others, rfl, later⟩ := leaves.next (beq_eq_false_iff_ne.2 going) next
    exact ⟨others, by simp [whole, Item.tokens], later⟩

/-- A reduction makes one phrase of the items on top. -/
theorem reduce (working : Working all last items c) (stack : c.stack = top :: below)
    (entry : Grammar.entry? (grammar .hard) top.state c.lookahead.id = some a)
    (kind : a.kind = .reduce) (reduced : c.reduce (grammar .hard) host a.aux = .ok (.more c'))
    (healthy : c'.Sound (grammar .hard)) :
    ∃ items', Working all last items' c' := by
  obtain ⟨sound₀, stacked, tallied, ready, silent, plain, rest, whole, leaves⟩ := working
  have sound := Grammar.sound_of_check (check_grammar .hard)
  have fits := chart_fits .hard
  obtain ⟨r, n, base, under, target, o, rule, popped, lhs, goto, ran, stack', lexer, lookahead⟩ :=
    Config.reduce_eq_more reduced
  obtain ⟨mem, _⟩ := Grammar.mem_entries sound entry (by simp [kind])
  -- The symbols on top are those of the production.
  have production := fits.production a.aux.toNat
  rw [rule, Option.map_some, eq_comm, Option.map_eq_some_iff] at production
  obtain ⟨p, there, same⟩ := production
  obtain ⟨input, length⟩ := Prod.mk.inj same
  rw [stack] at stacked popped
  rw [← length] at popped ran
  obtain ⟨above, lower, rfl, way, held, stacked⟩ := stacked.pop popped
  obtain ⟨output, edges⟩ := fits.reduce _ mem kind p there _ way
  dsimp only at output
  have edge : ⟨base.state, .nonterminal p.input, target⟩ ∈ chart.edges := by
    simpa [Grammar.next?, input, lhs, goto] using edges
  have one := attributeCount_eq n (Array.mem_of_getElem? lhs)
  obtain ⟨ran, before⟩ := ran_of_reducing sound sound₀ (Array.getElem?_eq_some_iff.1 rule).1 ran
  rw [stack] at ran
  have reduced := Reduced.of_ran one ran
  have linked := reduced.linked
  have held : List.Forall₂ (Held (c.eval.reducing o n).2.graph) above.reverse
      (((top :: below).take p.output.length).reverse.map Frame.attrs) := by
    rw [List.map_reverse, List.forall₂_reverse_iff]
    exact held.imp fun _ _ item => item.grows before reduced.sound.graph.linked
  rw [List.reverse_append, List.flatMap_append] at tallied whole
  obtain ⟨phrase, A, named, spells, stands, tallied'⟩ :=
    reduced.item there ((List.map_reverse ..).trans output) held (tallied.reducing o n)
  rw [named] at edge
  refine ⟨.phrase phrase (above.reverse.flatMap Item.tokens) A :: lower, healthy, ?_, ?_,
    lexer ▸ ready, lexer ▸ silent, lookahead ▸ plain, rest, ?_, ?_⟩
  · rw [stack', reducing_of_one one]
    exact .push (stacked.grows (before.trans reduced.grows) linked) edge (.phrase spells stands)
  · rw [List.reverse_cons, List.flatMap_append]
    simpa [Item.trees] using tallied'
  · rw [whole, List.reverse_cons, List.flatMap_append]
    simp [Item.tokens]
  · rw [lexer, lookahead]
    exact leaves

theorem accept (working : Working all last items c) (stack : c.stack = top :: below)
    (entry : Grammar.entry? (grammar .hard) top.state c.lookahead.id = some a)
    (kind : a.kind = .accept) :
    ∃ A, Complete all last A c := by
  obtain ⟨healthy, stacked, tallied, _, silent, _, rest, whole, leaves⟩ := working
  have sound := Grammar.sound_of_check (check_grammar .hard)
  have fits := chart_fits .hard
  have ended : c.lookahead.id = endOfText := (fits.endsLast sound).accept entry kind
  obtain ⟨mem, _⟩ := Grammar.mem_entries sound entry (by simp [kind])
  obtain ⟨_, _, above, ways⟩ := fits.accept _ mem kind
  rw [stack] at stacked
  -- Above the bottom there is the start symbol, and nothing else.
  cases below with
  | nil =>
    cases stacked with
    | bottom state => exact absurd state above
  | cons base under =>
    obtain ⟨items, lower, rfl, way, held, stacked⟩ := stacked.pop (n := 1) rfl
    obtain ⟨symbols, bottom⟩ := Prod.mk.inj (ways _ way)
    obtain rfl := stacked.eq_nil bottom
    rw [List.append_nil] at tallied whole
    obtain ⟨item, attrs, rfl, named, symbol, held⟩ :=
      Held.exists_one held (List.reverse_eq_iff.1 symbols)
    obtain ⟨ts, A, n, rfl, rfl, spells, stands⟩ := held.exists_phrase .expr symbol
    have attrs : top.attrs = [n] := (List.cons.inj named).1
    obtain ⟨rfl, rfl⟩ := leaves.none_left (beq_iff_eq.2 ended)
    rw [List.append_nil] at whole
    cases whole
    exact ⟨A, healthy.eval.graph.linked, by simpa [Item.tokens] using spells,
      ⟨n, by simp [stack, attrs], stands⟩, tallied, silent⟩

end Working

/-- No step loses anything, unless it meets an error of the text. -/
theorem keeps (all : List Token) (last : Lexer) :
    Config.Keeps (grammar .hard) host (Onward all last) where
  sound := fun ⟨_, working⟩ => working.sound
  shift := fun ⟨_, working⟩ stack entry kind shifted healthy grows clean =>
    ⟨_, working.shift stack entry kind shifted healthy grows clean⟩
  reduce := fun ⟨_, working⟩ => working.reduce
  accept := fun ⟨_, working⟩ => working.accept

/-- The first token has been read. -/
theorem working_start {text : String} {null stop : Bool} {all : List Token} {last : Lexer} {n : Nat}
    {c : Config Machine Int}
    (delivered : Lexer.tokensFrom (grammar .hard) n (Lexer.start (.ofText text null)) =
      .ok (all, last))
    (begun : Config.start (grammar .hard) host (.ofText text null) Options.default.control
      (Machine.start stop) = .ok c) (clean : c.eval.Clean) : Working all last [] c := by
  obtain ⟨t, l, next, leaves⟩ := Lexer.leaves_of_tokensFrom delivered
  obtain ⟨_, same, healthy, _⟩ := Config.yields_start
    (Grammar.sound_of_check (check_grammar .hard)) host (.ofText text null) Options.default.control
    (Machine.start stop)
  cases begun.symm.trans same
  obtain ⟨_, pulled, rest⟩ := bind_eq_ok_iff.1 begun
  cases rest
  obtain ⟨next', silent, eval⟩ := Config.pull_eq_clean pulled clean
  cases next.symm.trans next'
  obtain ⟨plain, ready⟩ := plain_nextFrom (ready_start text null) next silent
  refine ⟨healthy, .bottom rfl, ⟨?_, fun _ => ?_, nofun⟩, ready, silent, plain, all, rfl, leaves⟩
  all_goals
    dsimp only
    rw [eval]
  · rfl
  · exact ⟨rfl, rfl⟩

end Samples.Calculator

open Samples.Calculator

/-- The calculator computes what its text says. Where a parse succeeds, the tokens of the text spell
one expression; the parse is without any error exactly if each number, sum and product in it is one
of 64 bits, and then the root has the value of the expression and the calls are those for its parts,
operands first. Otherwise the root has no value, and an error has been counted. -/
theorem calculator_computes_arithmetic (text : String) (null stop : Bool) {fuel : Nat}
    {outcome : Outcome Machine Int}
    (ends : parse (grammar .hard) host .default fuel (.ofText text null) (Machine.start stop) =
      .ok (some outcome)) (ok : outcome.ok = true) :
    ∃ tokens A, (Lexer.start (.ofText text null)).tokens (grammar .hard) = .ok (tokens, []) ∧
      Spells .expr tokens A ∧ (∀ B, Spells .expr tokens B → B = A) ∧
      (outcome.isClean = true ↔ A.Fits) ∧
      (A.Fits → outcome.rootValue? = .ok (some A.value) ∧
        outcome.host.calls.toList = A.calls) ∧
      (¬A.Fits → outcome.rootValue? = .ok none ∧ 1 ≤ outcome.stats.semanticErrors) := by
  obtain ⟨c, begun, run⟩ := bind_eq_ok_iff.1 ends
  obtain ⟨⟨tokens, ds⟩, all, _⟩ := Lexer.yields_tokens (l := Lexer.start (.ofText text null))
    (Grammar.sound_of_check (check_grammar .hard)) (Cursor.faithful_start _)
  obtain ⟨⟨_, last⟩, delivered, same⟩ := bind_eq_ok_iff.1 all
  cases same
  have working := working_start delivered begun (Config.clean_of_ok run ok)
  obtain ⟨c', ⟨A, complete⟩, rfl⟩ := (keeps tokens last).run
    (Grammar.sound_of_check (check_grammar .hard)) ⟨[], working⟩ run ok
  refine ⟨tokens, A, ?_, complete.spells, fun B other => other.unique complete.spells,
    complete.outcome ok⟩
  rw [all, complete.silent]

/-- A product of a number and a sum, with a comment in between, and one beyond 64 bits. -/
theorem products_are_computed :
    (∃ outcome tokens A, parse (grammar .hard) host .default 40 (.ofText "2* /* x */(3+4)" false)
        (Machine.start false) = .ok (some outcome) ∧ outcome.ok = true ∧
      Spells .expr tokens A ∧ A.Fits ∧ outcome.rootValue? = .ok (some A.value) ∧ A.value = 14 ∧
      A.calls = [evaluate, evaluate, evaluate, add, multiply]) ∧
    ∃ outcome tokens A, parse (grammar .hard) host .default 40
        (.ofText "9223372036854775807*2+1" false) (Machine.start false) = .ok (some outcome) ∧
      outcome.ok = true ∧ Spells .expr tokens A ∧ ¬A.Fits ∧ outcome.rootValue? = .ok none ∧
      1 ≤ outcome.stats.semanticErrors := by
  constructor
  · obtain ⟨outcome, ended, seen⟩ : ∃ outcome, parse (grammar .hard) host .default 40
        (.ofText "2* /* x */(3+4)" false) (Machine.start false) = .ok (some outcome) ∧
        (outcome.ok, outcome.isClean, outcome.rootValue?.toOption, outcome.host.calls.toList) =
          (true, true, some (some 14), [evaluate, evaluate, evaluate, add, multiply]) :=
      exists_of_run (by decide +kernel)
    simp only [Prod.mk.injEq] at seen
    obtain ⟨ok, clean, root, calls⟩ := seen
    obtain ⟨tokens, A, _, spells, _, fits, computed, _⟩ :=
      calculator_computes_arithmetic "2* /* x */(3+4)" false false ended ok
    obtain ⟨value, called⟩ := computed (fits.1 clean)
    rw [value] at root
    exact ⟨outcome, tokens, A, ended, ok, spells, fits.1 clean, value,
      Option.some.inj (Option.some.inj root), called.symm.trans calls⟩
  · obtain ⟨outcome, ended, seen⟩ : ∃ outcome, parse (grammar .hard) host .default 40
        (.ofText "9223372036854775807*2+1" false) (Machine.start false) = .ok (some outcome) ∧
        (outcome.ok, outcome.isClean) = (true, false) :=
      exists_of_run (by decide +kernel)
    simp only [Prod.mk.injEq] at seen
    obtain ⟨ok, failed⟩ := seen
    obtain ⟨tokens, A, _, spells, _, fits, _, unfit⟩ :=
      calculator_computes_arithmetic "9223372036854775807*2+1" false false ended ok
    have broken : ¬A.Fits := fun all => Bool.false_ne_true (failed.symm.trans (fits.2 all))
    exact ⟨outcome, tokens, A, ended, ok, spells, broken, unfit broken⟩

end GrammarMachine
