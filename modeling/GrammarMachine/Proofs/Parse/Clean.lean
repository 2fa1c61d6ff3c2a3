import GrammarMachine.Proofs.Evaluation.Immediate
import GrammarMachine.Proofs.Graph.Snapshots
import GrammarMachine.Proofs.Parse.Inversion
import GrammarMachine.Proofs.Parse.Lockstep

/-!
Parses that meet no error of the text. An error of the text is never forgotten, so where a parse
succeeds, each of its steps was a shift that read on without a message, a reduction, or the one that
accepts.
-/

namespace GrammarMachine

open Evaluation

namespace Lexer

variable {g : Grammar}

/-- With `t` delivered last and the lexer behind it, the tokens that are left, `t` first, and the
lexer behind all of them. -/
inductive Leaves (g : Grammar) : Token → Lexer → List Token → Lexer → Prop
  | ended {t : Token} {l : Lexer} (ended : t.isEnd = true) : Leaves g t l [] l
  | more {t : Token} {l last : Lexer} {n : Nat} {ts : List Token} (going : t.isEnd = false)
      (rest : tokensFrom g n l = .ok (ts, last)) : Leaves g t l (t :: ts) last

theorem leaves_of_tokensFrom {l last : Lexer} {n : Nat} {ts : List Token}
    (delivered : tokensFrom g n l = .ok (ts, last)) :
    ∃ t l', l.next g = .ok (t, l') ∧ Leaves g t l' ts last := by
  cases n with
  | zero => cases delivered
  | succ n =>
    obtain ⟨⟨t, l'⟩, next, rest⟩ := bind_eq_ok_iff.1 delivered
    refine ⟨t, l', next, ?_⟩
    dsimp only at rest
    split at rest
    · next ended =>
      cases rest
      exact .ended ended
    · next going =>
      obtain ⟨⟨others, _⟩, later, same⟩ := bind_eq_ok_iff.1 rest
      cases same
      exact .more (Bool.not_eq_true _ ▸ going) later

namespace Leaves

variable {t t' : Token} {l l' last : Lexer} {rest : List Token}

theorem next (leaves : Leaves g t l rest last) (going : t.isEnd = false)
    (next : l.next g = .ok (t', l')) :
    ∃ others, rest = t :: others ∧ Leaves g t' l' others last := by
  cases leaves with
  | ended ended => simp [ended] at going
  | more _ later =>
    obtain ⟨_, _, next', leaves⟩ := leaves_of_tokensFrom later
    cases next.symm.trans next'
    exact ⟨_, rfl, leaves⟩

theorem none_left (leaves : Leaves g t l rest last) (ended : t.isEnd = true) :
    rest = [] ∧ last = l := by
  cases leaves with
  | ended => exact ⟨rfl, rfl⟩
  | more going => simp [ended] at going

end Leaves

end Lexer

variable {σ V : Type} {g : Grammar} {h : Host σ V} {options : Options}

/-- No error of the text so far, and no refusal in the end. -/
def Progress.Clean : Progress (Config σ V) → Prop
  | .more c => c.eval.Clean
  | .done accepted last => accepted = true ∧ last.eval.Clean

namespace Config

variable {c c' : Config σ V}

theorem not_clean_fail {state : ParserState} {p : Progress (Config σ V)}
    (failed : c.fail g h options state = .ok p) : ¬p.Clean := by
  have counted := syntaxErrors_fail failed
  intro clean
  have none : p.state.eval.stats.syntaxErrors = 0 := by
    cases p with
    | more => exact clean.2
    | done => exact clean.2.2
  omega

/-- An error of the text is never forgotten by a step. -/
theorem clean_of_advance {p : Progress (Config σ V)} (result : c.advance g h options = .ok p)
    (clean : p.Clean) : c.eval.Clean := by
  cases acts_of_advance result with
  | stopped => exact clean.2
  | lost => exact clean.2
  | shift _ _ shifted =>
    obtain ⟨_, _, _, _, _, iff⟩ := shift_eq_ok h.patient_nowhere shifted
    exact (iff.1 clean).1
  | reduce _ _ reduced =>
    obtain ⟨_, _, ⟨last, rfl, _⟩ | ⟨c', _, _, _, _, rfl, _, _, _, _, _, _, calm⟩⟩ :=
      reduce_eq_ok h.patient_nowhere reduced
    · exact nomatch clean.1
    · exact calm.clean_iff.1 clean
  | accept => exact clean.2
  | error _ _ failed => exact absurd clean (not_clean_fail failed)

/-- A parse that succeeds has met no error of the text on the way. -/
theorem clean_of_ok {fuel : Nat} {outcome : Outcome σ V}
    (ends : c.run g h options fuel = .ok (some outcome)) (ok : outcome.ok = true) :
    c.eval.Clean := by
  induction fuel generalizing c with
  | zero => cases ends
  | succ fuel ih =>
    obtain ⟨p, result, rest⟩ := bind_eq_ok_iff.1 ends
    have clean : p.Clean := by
      cases p with
      | more next => exact ih rest
      | done accepted last =>
        cases rest
        exact (ok_ofConfig (g := g) accepted last).1 ok
    exact clean_of_advance result clean

/-- Reading on without an error of the text takes the next token, and nothing is reported. -/
theorem pull_eq_clean {l l' : Lexer} {e e' : Evaluation σ V} {t : Token}
    (pulled : pull g h l e = .ok (t, l', e')) (clean : e'.Clean) :
    l.next g = .ok (t, l') ∧ l'.diagnostics = #[] ∧ e' = e := by
  obtain ⟨l₁, next, same, _, iff, _⟩ := pull_eq_ok h.patient_nowhere pulled
  have none := (iff.1 clean).2
  obtain ⟨_, next', rest⟩ := bind_eq_ok_iff.1 pulled
  cases next.symm.trans next'
  dsimp only [Lexer.takeDiagnostics] at rest
  rw [none] at rest
  cases rest
  exact ⟨by rw [next, same none], rfl, rfl⟩

theorem shift_eq_clean {target : UInt32} (shifted : c.shift g h target = .ok c')
    (clean : c'.eval.Clean) :
    c.lexer.next g = .ok (c'.lookahead, c'.lexer) ∧ c'.lexer.diagnostics = #[] ∧
      c'.eval = (c.eval.shifting c.lookahead).2 ∧
      c'.stack = ⟨target, (c.eval.shifting c.lookahead).1, c.lookahead.origin⟩ :: c.stack := by
  rw [shift_eq] at shifted
  obtain ⟨_, pulled, rest⟩ := bind_eq_ok_iff.1 shifted
  cases rest
  obtain ⟨next, silent, eval⟩ := pull_eq_clean pulled clean
  exact ⟨next, silent, eval, rfl⟩

/-- A reduction after which the parse goes on. -/
theorem reduce_eq_more {id : UInt32} (reduced : c.reduce g h id = .ok (.more c')) :
    ∃ r n base below target o, g.rules[id.toNat]? = some r ∧
      c.stack.drop r.length.toNat = base :: below ∧ g.nonterminals[r.lhs.toNat]? = some n ∧
      n.goto? base.state = some target ∧
      runRule g h id (c.eval.reducing o n).1
        ((c.stack.take r.length.toNat).reverse.map Frame.attrs) (c.eval.reducing o n).2 =
          .ok c'.eval ∧
      c'.stack = ⟨target, (c.eval.reducing o n).1, o⟩ :: base :: below ∧ c'.lexer = c.lexer ∧
      c'.lookahead = c.lookahead := by
  cases replaces_of_reduce reduced with
  | goes runs goto =>
    obtain ⟨rule, popped, nonterminal, ran⟩ := runs
    exact ⟨_, _, _, _, _, _, fetch_eq_ok_iff.1 rule, popped, fetch_eq_ok_iff.1 nonterminal, goto,
      ran, rfl, rfl, rfl⟩

/-- What the steps of a parse without an error of the text keep: shifts, reductions, and the one
that accepts. -/
structure Keeps (g : Grammar) (h : Host σ V) (P : Progress (Config σ V) → Prop) : Prop where
  sound : ∀ {c}, P (.more c) → c.Sound g
  shift : ∀ {c c' top below} {a : Action}, P (.more c) → c.stack = top :: below →
    g.entry? top.state c.lookahead.id = some a → a.kind = .shift → c.shift g h a.aux = .ok c' →
    c'.Sound g → c.eval.graph.Grows c'.eval.graph → c'.eval.Clean → P (.more c')
  reduce : ∀ {c c' top below} {a : Action}, P (.more c) → c.stack = top :: below →
    g.entry? top.state c.lookahead.id = some a → a.kind = .reduce →
    c.reduce g h a.aux = .ok (.more c') → c'.Sound g → P (.more c')
  accept : ∀ {c top below} {a : Action}, P (.more c) → c.stack = top :: below →
    g.entry? top.state c.lookahead.id = some a → a.kind = .accept → P (.done true c)

namespace Keeps

variable {P : Progress (Config σ V) → Prop}

theorem advance (keeps : Keeps g h P) (sound : g.Sound) (before : P (.more c))
    {p : Progress (Config σ V)} (result : c.advance g h options = .ok p) (clean : p.Clean) :
    P p := by
  obtain ⟨_, same, follows⟩ : Yields (c.advance g h options) _ :=
    yields_advance sound (keeps.sound before)
  cases result.symm.trans same
  cases acts_of_advance result with
  | stopped => exact nomatch clean.1
  | lost => exact nomatch clean.1
  | shift entry kind shifted =>
    obtain ⟨top, below, stack, entry⟩ := exists_top_of_entry? entry
    exact keeps.shift before stack entry kind shifted follows.sound follows.run.grows clean
  | reduce entry kind reduced =>
    obtain ⟨top, below, stack, entry⟩ := exists_top_of_entry? entry
    obtain ⟨_, _, ⟨_, rfl, _⟩ | ⟨c', _, _, _, _, rfl, _⟩⟩ :=
      reduce_eq_ok h.patient_nowhere reduced
    · exact nomatch clean.1
    · exact keeps.reduce before stack entry kind reduced follows.sound
  | accept entry kind =>
    obtain ⟨top, below, stack, entry⟩ := exists_top_of_entry? entry
    exact keeps.accept before stack entry kind
  | error entry kind failed => exact absurd clean (not_clean_fail failed)

/-- A parse that succeeds has kept it up to the end. -/
theorem run (keeps : Keeps g h P) (sound : g.Sound) (before : P (.more c)) {fuel : Nat}
    {outcome : Outcome σ V} (ends : c.run g h options fuel = .ok (some outcome))
    (ok : outcome.ok = true) :
    ∃ final, P (.done true final) ∧ outcome = .ofConfig true final := by
  induction fuel generalizing c with
  | zero => cases ends
  | succ fuel ih =>
    obtain ⟨p, result, rest⟩ := bind_eq_ok_iff.1 ends
    cases p with
    | more next => exact ih (keeps.advance sound before result (clean_of_ok rest ok)) rest
    | done accepted final =>
      cases rest
      have clean := (ok_ofConfig (g := g) accepted final).1 ok
      have after := keeps.advance sound before result clean
      obtain ⟨rfl, _⟩ := clean
      exact ⟨final, after, rfl⟩

end Keeps

/-- If the text goes on without a diagnostic from here on, all of it is without one. -/
def Silent (g : Grammar) (source : Source) : Progress (Config σ V) → Prop
  | .more c => c.Sound g ∧ c.lexer.diagnostics = #[] ∧
      ∀ ids, Lexer.Quiet g c.lookahead c.lexer ids → ∃ ids', (Lexer.start source).Starts g ids'
  | .done _ _ => ∃ ids', (Lexer.start source).Starts g ids'

theorem keeps_silent (last : g.EndsLast) (source : Source) :
    Keeps g h (Silent (σ := σ) (V := V) g source) where
  sound := And.left
  shift := by
    rintro c c' top below a ⟨_, _, whole⟩ _ entry kind shifted healthy _ clean
    obtain ⟨next, silent, _⟩ := shift_eq_clean shifted clean
    have going : c.lookahead.isEnd = false := beq_eq_false_iff_ne.2 (last.shift entry kind)
    exact ⟨healthy, silent, fun ids quiet => whole _ (.more going next silent quiet)⟩
  reduce := by
    rintro c c' top below a ⟨_, silent, whole⟩ _ _ _ reduced healthy
    obtain ⟨_, _, _, _, _, _, _, _, _, _, _, _, lexer, lookahead⟩ := reduce_eq_more reduced
    refine ⟨healthy, ?_, ?_⟩
    · rwa [lexer]
    · rwa [lexer, lookahead]
  accept := by
    rintro c top below a ⟨_, _, whole⟩ _ entry kind
    exact whole [] (.ended (beq_iff_eq.2 (last.accept entry kind)))

end Config

/-- A parse that succeeds without an error reads a text whose tokens come without a diagnostic. -/
theorem starts_of_ok (sound : g.Sound) (last : g.EndsLast) {control : Control} {fuel : Nat}
    {source : Source} {host : σ} {outcome : Outcome σ V}
    (ends : parseUnder control g h options fuel source host = .ok (some outcome))
    (ok : outcome.ok = true) : ∃ ids, (Lexer.start source).Starts g ids := by
  obtain ⟨c, begun, run⟩ := bind_eq_ok_iff.1 ends
  obtain ⟨_, same, healthy, _⟩ := Config.yields_start sound h source control host
  cases begun.symm.trans same
  have clean := Config.clean_of_ok run ok
  obtain ⟨_, pulled, rest⟩ := bind_eq_ok_iff.1 begun
  cases rest
  obtain ⟨next, silent, _⟩ := Config.pull_eq_clean pulled clean
  obtain ⟨_, whole, _⟩ := (Config.keeps_silent last source).run sound
    ⟨healthy, silent, fun ids quiet => ⟨ids, _, _, next, silent, quiet⟩⟩ run ok
  exact whole

/-- The value of the root is that of the node behind it. -/
theorem Outcome.rootValue?_ofConfig {c : Config σ V} {n : Nat} {node : Node V}
    (linked : c.eval.graph.Linked)
    (root : (c.stack.head?.bind fun top => top.attrs.head?) = some n)
    (resolves : c.eval.graph.Resolves n node) :
    (Outcome.ofConfig true c).rootValue? = .ok
      (match node with
        | .user _ value _ _ => value
        | _ => none) := by
  have settled := (resolves.grows (Graph.grows_settle _) (Graph.linked_settle linked)).resolve
  rw [rootValue?, show (Outcome.ofConfig true c).root = some n from root]
  change c.eval.graph.settle.value? n = _
  rw [Graph.value?, settled, ok_bind]
  cases node <;> rfl

namespace Evaluation

variable {t : Token} {text : String} {n : Nonterminal} {o : Origin} {e e' : Evaluation σ V}

theorem shifting_of_text (carried : t.text = some text) (e : Evaluation σ V) :
    (e.shifting t).1 = [e.graph.size] ∧
      (e.shifting t).2.graph = (e.graph.alloc (.text text t.origin.pos t.error)).2 := by
  unfold Evaluation.shifting Config.tokenAttrs
  rw [carried]
  exact ⟨rfl, rfl⟩

theorem shifting_tallies (t : Token) (e : Evaluation σ V) :
    (e.shifting t).2.control = e.control ∧ (e.shifting t).2.host = e.host ∧
      (e.shifting t).2.stats.semanticErrors = e.stats.semanticErrors := by
  unfold Evaluation.shifting Config.tokenAttrs
  cases t.text <;> exact ⟨rfl, rfl, rfl⟩

theorem reducing_of_one (one : n.attributeCount = 1) (o : Origin) (e : Evaluation σ V) :
    e.reducing o n = ([e.graph.size], { e with
      graph := (e.graph.alloc (.pending ⟨none, [], o⟩)).2
      stats := { e.stats with reductions := e.stats.reductions + 1 } }) := by
  unfold Evaluation.reducing
  rw [one]
  rfl

theorem reducing_eq (o : Origin) (n : Nonterminal) (e : Evaluation σ V) :
    e.reducing o n = (List.range' e.graph.size n.attributeCount, { e with
      graph := ⟨e.graph.nodes ++ Array.replicate n.attributeCount (.pending ⟨none, [], o⟩)⟩
      stats := { e.stats with reductions := e.stats.reductions + 1 } }) := by
  simp only [reducing, allocMany, Graph.allocMany_eq]

/-- A reduction adds new attributes, behind all there is. -/
theorem getElem?_reducing_old {i : Nat} (inside : i < e.graph.size) (o : Origin) (n : Nonterminal) :
    (e.reducing o n).2.graph.nodes[i]? = e.graph.nodes[i]? :=
  Graph.getElem?_allocMany_old inside _ _

theorem getElem?_reducing_new {i : Nat} (mem : i ∈ (e.reducing o n).1) :
    (e.reducing o n).2.graph.nodes[i]? = some (.pending ⟨none, [], o⟩) :=
  Graph.getElem?_allocMany_new mem

/-- A reduction runs its rule on new attributes and on those of frames that are on the stack. -/
theorem runs_of_reducing (sound : g.Sound) {c : Config σ V} (healthy : c.Sound g) {id : UInt32}
    {k : Nat} (inside : id.toNat < g.rules.size)
    (ran : runRule g h id (c.eval.reducing o n).1 ((c.stack.take k).reverse.map Frame.attrs)
      (c.eval.reducing o n).2 = .ok e') :
    (c.eval.reducing o n).2.Sound g ∧ c.eval.graph.Grows (c.eval.reducing o n).2.graph ∧
      ∃ events, Runs g h (c.eval.reducing o n).2 events e' := by
  obtain ⟨declared, ready, covers⟩ := Config.deeds_declare (h := h) healthy k o n
  obtain ⟨_, same, deeds, _⟩ := yields_runRule (h := h) sound ready covers inside
  cases ran.symm.trans same
  exact ⟨ready, declared.runs.grows, _, deeds.runs⟩

theorem ran_of_reducing (sound : g.Sound) {c : Config σ V} (healthy : c.Sound g) {id : UInt32}
    {k : Nat} (inside : id.toNat < g.rules.size)
    (ran : runRule g h id (c.eval.reducing o n).1 ((c.stack.take k).reverse.map Frame.attrs)
      (c.eval.reducing o n).2 = .ok e') :
    Ran g h id (c.eval.reducing o n).1 ((c.stack.take k).reverse.map Frame.attrs)
      (c.eval.reducing o n).2 e' ∧ c.eval.graph.Grows (c.eval.reducing o n).2.graph := by
  obtain ⟨ready, grows, _, run⟩ := runs_of_reducing sound healthy inside ran
  exact ⟨⟨ready, healthy.queue, ran, run.sound ready, run.grows⟩, grows⟩

end Evaluation

/-- A computation that was run to the end. -/
theorem exists_of_run {α β : Type} {x : Except Fault (Option α)} {f : α → β} {b : β}
    (ran : x.toOption.bind (Option.map f) = some b) : ∃ a, x = .ok (some a) ∧ f a = b := by
  obtain ⟨_, whole, found⟩ := Option.bind_eq_some_iff.1 ran
  obtain ⟨a, rfl, same⟩ := Option.map_eq_some_iff.1 found
  exact ⟨a, eq_ok_of_toOption whole, same⟩

end GrammarMachine
