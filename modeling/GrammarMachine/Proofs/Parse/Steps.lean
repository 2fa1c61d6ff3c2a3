import GrammarMachine.Parse.Step
import GrammarMachine.Proofs.Parse.Reading

/-!
One step of a parse. From a sound state every step succeeds and leads to a sound state, its history
tells the moves of the evaluation, and a step after which the parse goes on is one of three: a
shift, a reduction or a recovery.
-/

namespace GrammarMachine

open Evaluation

/-- The state that a step leads to. -/
def Progress.state {α : Type} : Progress α → α
  | more next => next
  | done _ last => last

/-- The state in which the parse goes on. -/
def Progress.next? {α : Type} : Progress α → Option α
  | more next => some next
  | done _ _ => none

theorem Progress.eq_more {α : Type} {p : Progress α} {next : α} (on : p.next? = some next) :
    p = .more next := by
  cases p with
  | more => exact congrArg Progress.more (Option.some.inj on)
  | done => cases on

namespace Config

variable {σ V : Type}

/-- What a reduction adds to the history. -/
def reduceHistory (g : Grammar) (h : Host σ V) (id : UInt32) (c : Config σ V) :
    List (Event σ V) :=
  telling (g.rule id) fun rule =>
    match c.stack.drop rule.length.toNat with
    | [] => []
    | _ :: _ =>
      let rhs := (c.stack.take rule.length.toNat).reverse
      let origin := (rhs.head?.map Frame.origin).getD c.lookahead.origin
      let stats := { c.eval.stats with reductions := c.eval.stats.reductions + 1 }
      telling (g.nonterminal rule.lhs) fun nonterminal =>
        let (attrs, graph) :=
          c.eval.graph.allocMany (.pending ⟨none, [], origin⟩) nonterminal.attributeCount
        (attrs.flatMap fun id => [.allocated id origin]) ++
          runRuleHistory g h id attrs (rhs.map Frame.attrs) { c.eval with graph, stats }

/-- What a step adds to the history. Only reductions do. -/
def history (g : Grammar) (h : Host σ V) (c : Config σ V) : List (Event σ V) :=
  if c.eval.control.stopped then []
  else
    match c.stack with
    | [] => []
    | top :: _ =>
      telling (g.state top.state) fun state =>
        match state.action? c.lookahead.id with
        | some ⟨.reduce, _, _, rule⟩ => c.reduceHistory g h rule
        | _ => []

/-- What a step can do after which the parse goes on. -/
inductive Advances (g : Grammar) (c : Config σ V) : Config σ V → Prop
  /-- The lookahead is shifted by a declared entry, and the next token is read. -/
  | shift {c' : Config σ V} {top : Frame} {below : List Frame} {state : ParserState} {a : Action}
      (stack : c.stack = top :: below) (there : g.states[top.state.toNat]? = some state)
      (declared : a ∈ state.declared) (kind : a.kind = .shift)
      (low : a.low ≤ c.lookahead.id) (high : c.lookahead.id ≤ a.high)
      (delivers : c.lexer.Delivers g c'.lookahead c'.lexer) : Advances g c c'
  /-- A right-hand side is replaced, and nothing is read. -/
  | reduce {c' : Config σ V} {top frame base : Frame} {below rest : List Frame}
      {state : ParserState} {a : Action} {r : Rule} {n : Nonterminal}
      (stack : c.stack = top :: rest) (there : g.states[top.state.toNat]? = some state)
      (action : state.action? c.lookahead.id = some a) (kind : a.kind = .reduce)
      (rule : g.rules[a.aux.toNat]? = some r)
      (popped : c.stack.drop r.length.toNat = base :: below)
      (lhs : g.nonterminals[r.lhs.toNat]? = some n) (goto : n.goto? base.state = some frame.state)
      (pushed : c'.stack = frame :: base :: below) (lexer : c'.lexer = c.lexer)
      (lookahead : c'.lookahead = c.lookahead) (recoveredAt : c'.recoveredAt = c.recoveredAt) :
      Advances g c c'
  /-- A recovery reads on, or resumes on a lookahead where the last one did not. -/
  | recover {c' : Config σ V}
      (progress : c'.left < c.left ∨ c'.left = c.left ∧
        c.recoveredAt ≠ some c.lookahead.origin.pos ∧
        c'.recoveredAt = some c'.lookahead.origin.pos) : Advances g c c'

variable {g : Grammar} {h : Host σ V} {options : Options} {c c' : Config σ V}

/-- The outcome of a step: a sound state, reached by the moves of the history. -/
structure Follows (g : Grammar) (h : Host σ V) (c : Config σ V) (events : List (Event σ V))
    (p : Progress (Config σ V)) : Prop where
  sound : p.state.Sound g
  run : Runs g h c.eval events p.state.eval
  advances : ∀ c', p = .more c' → c.Advances g c'

/-- A step that ends the parse. -/
theorem follows_done {accepted : Bool} {events : List (Event σ V)} (sound : c'.Sound g)
    (run : Runs g h c.eval events c'.eval) : Follows g h c events (.done accepted c') :=
  ⟨sound, run, fun _ same => nomatch same⟩

theorem follows_more {events : List (Event σ V)} (sound : c'.Sound g)
    (run : Runs g h c.eval events c'.eval) (advances : c.Advances g c') :
    Follows g h c events (.more c') :=
  ⟨sound, run, fun _ same => by cases same; exact advances⟩

theorem yields_shift (sound : g.Sound) (healthy : c.Sound g) {target : UInt32}
    (inside : target.toNat < g.states.size) :
    Yields (c.shift g h target) fun c' => c'.Sound g ∧ Runs g h c.eval [] c'.eval ∧
      c.lexer.Delivers g c'.lookahead c'.lexer := by
  obtain ⟨⟨attrs, e₁⟩, attributes⟩ : ∃ found, tokenAttrs c.lookahead c.eval = found := ⟨_, rfl⟩
  have allocated : Runs g h c.eval [] e₁ ∧ e₁.queue = c.eval.queue ∧
      ∀ id ∈ attrs, id < e₁.graph.size := by
    unfold tokenAttrs at attributes
    split at attributes
    · next text _ =>
      cases attributes
      refine ⟨.of_move (.leaf rfl), rfl, fun id mem => ?_⟩
      rw [List.mem_singleton.1 mem]
      exact Nat.lt_of_lt_of_eq (Nat.lt_succ_self _) (Graph.size_alloc c.eval.graph _).symm
    · cases attributes
      exact ⟨.refl, rfl, fun _ mem => nomatch mem⟩
  obtain ⟨run, queue, inside_graph⟩ := allocated
  unfold shift
  dsimp only
  rw [attributes]
  refine (yields_pull sound healthy.faithful _).bind fun (token, lexer, eval) ⟨delivers, same⟩ => ?_
  -- Counting the shift disturbs nothing either.
  have same : e₁.Undisturbed eval := ⟨same.graph, same.queue, same.deferred, same.replays⟩
  have run : Runs g h c.eval [] eval := run.step (.note same)
  have standing := healthy.standing.grows run.grows
  refine .pure ⟨⟨delivers.leads.faithful, run.sound healthy.eval, ?_, standing.cons inside ?_,
    delivers.known⟩, run, delivers⟩
  · exact same.queue.trans (queue.trans healthy.queue)
  · rw [same.graph]
    exact inside_graph

/-- What a reduction does: nothing at all, or what its history tells once it has been counted. -/
inductive Reduces (g : Grammar) (h : Host σ V) (c : Config σ V) :
    List (Event σ V) → Config σ V → Prop
  | none : Reduces g h c [] c
  | some {events : List (Event σ V)} {c' : Config σ V} (lexer : c'.lexer = c.lexer)
      (deeds : Deeds g h { c.eval with
        stats := { c.eval.stats with reductions := c.eval.stats.reductions + 1 } } events c'.eval) :
      Reduces g h c events c'

/-- A reduction first declares the attributes of its left-hand side; those and the ones of the
frames it takes off the stack are all nodes of the graph then. -/
theorem deeds_declare (healthy : c.Sound g) (k : Nat) (o : Origin) (n : Nonterminal) :
    let e : Evaluation σ V :=
      { c.eval with stats := { c.eval.stats with reductions := c.eval.stats.reductions + 1 } }
    let (lhs, graph) := c.eval.graph.allocMany (.pending ⟨none, [], o⟩) n.attributeCount
    Deeds g h e (lhs.flatMap fun id => [.allocated id o]) { e with graph } ∧
      { e with graph }.Sound g ∧
      graph.Covers lhs ((c.stack.take k).reverse.map Frame.attrs) := by
  intro e
  obtain ⟨declared, attrs⟩ := deeds_allocMany (e := e) (fun id => [Event.allocated id o])
    (fun e => .declare (g := g) (h := h) e o) n.attributeCount
  have counted : e.Sound g := (⟨rfl, rfl, rfl, rfl⟩ : c.eval.Undisturbed e).sound healthy.eval
  have standing := healthy.standing.grows declared.runs.grows
  refine ⟨declared, declared.runs.sound counted, attrs, fun ids mem id inside => ?_⟩
  obtain ⟨f, among, rfl⟩ := List.mem_map.1 mem
  rw [List.mem_reverse] at among
  exact standing.attrs f (List.mem_of_mem_take among) id inside

theorem yields_reduce (sound : g.Sound) (healthy : c.Sound g) {top : Frame} {rest : List Frame}
    {state : ParserState} {a : Action} (stack : c.stack = top :: rest)
    (there : g.states[top.state.toNat]? = some state)
    (action : state.action? c.lookahead.id = some a) (kind : a.kind = .reduce)
    (inside : a.aux.toNat < g.rules.size) :
    Yields (c.reduce g h a.aux) fun p => Follows g h c (c.reduceHistory g h a.aux) p ∧
      Reduces g h c (c.reduceHistory g h a.aux) p.state := by
  obtain ⟨r, rule, at_rule⟩ : Yields (g.rule a.aux) fun r => g.rules[a.aux.toNat]? = some r :=
    yields_fetch inside
  obtain ⟨n, nonterminal, at_lhs⟩ : Yields (g.nonterminal r.lhs) fun n =>
      g.nonterminals[r.lhs.toNat]? = some n :=
    yields_fetch (sound.lhs r (Array.mem_of_getElem? at_rule))
  unfold reduce reduceHistory
  simp only [rule, nonterminal, ok_bind, telling_ok]
  cases popped : c.stack.drop r.length.toNat with
  | nil => exact .pure ⟨follows_done healthy .refl, .none⟩
  | cons base below =>
    dsimp only
    generalize (((c.stack.take r.length.toNat).reverse.head?.map Frame.origin).getD
      c.lookahead.origin) = origin
    obtain ⟨declared, ready, covers⟩ := deeds_declare (h := h) healthy r.length.toNat origin n
    refine (yields_runRule sound ready covers inside).bind ?_
    rintro eval ⟨ran, empty⟩
    have later := ran.runs
    have counted : Runs g h c.eval [] { c.eval with
      stats := { c.eval.stats with reductions := c.eval.stats.reductions + 1 } } :=
      .of_move (.note ⟨rfl, rfl, rfl, rfl⟩)
    have run := (counted.trans declared.runs).trans later
    have deeds := declared.trans ran
    have below_subset : base :: below ⊆ c.stack := by
      rw [← popped]
      exact List.drop_subset _ _
    have standing := (healthy.standing.subset below_subset).grows run.grows
    split
    · exact .pure ⟨follows_done ⟨healthy.faithful, run.sound healthy.eval, empty, standing,
        healthy.lookahead⟩ run, .some rfl deeds⟩
    · next target goto =>
      obtain ⟨pair, mem, rfl⟩ := Nonterminal.mem_of_goto? goto
      have state_inside := sound.goto n (Array.mem_of_getElem? at_lhs) pair mem
      have attrs := (covers.grows later.grows).lhs
      exact .pure ⟨follows_more ⟨healthy.faithful, run.sound healthy.eval, empty,
        standing.cons state_inside attrs, healthy.lookahead⟩ run
        (.reduce stack there action kind at_rule popped at_lhs goto rfl rfl rfl rfl),
        .some rfl deeds⟩

theorem sound_reportSyntax (healthy : c.Sound g) (state : ParserState) :
    (c.reportSyntax g h state).Sound g := by
  have same : c.eval.Undisturbed (c.reportSyntax g h state).eval := undisturbed_report h _ _ _ _
  refine ⟨healthy.faithful, same.sound healthy.eval, same.queue.trans healthy.queue, ?_,
    healthy.lookahead⟩
  rw [same.graph]
  exact healthy.standing

theorem yields_fail (sound : g.Sound) (healthy : c.Sound g) (state : ParserState) :
    Yields (c.fail g h options state) (Follows g h c []) := by
  have same : c.eval.Undisturbed (c.reportSyntax g h state).eval := undisturbed_report h _ _ _ _
  have reported : (c.reportSyntax g h state).Sound g := sound_reportSyntax healthy state
  have run : Runs g h c.eval [] (c.reportSyntax g h state).eval := .of_move (.note same)
  unfold fail
  dsimp only
  split
  · exact .pure (follows_done reported run)
  · refine (yields_recover sound reported).bind fun (resumed, c') ⟨recovers, fresh⟩ => ?_
    have run := run.trans recovers.run
    cases resumed with
    | false => exact .pure (follows_done recovers.sound run)
    | true =>
      refine .pure (follows_more recovers.sound run (.recover ?_))
      rcases recovers.progress rfl with less | ⟨lookahead, lexer, mark⟩
      · exact .inl less
      · rcases fresh rfl with less | unmarked
        · exact .inl less
        · refine .inr ⟨?_, unmarked, ?_⟩
          · unfold left
            rw [lookahead, lexer]
            rfl
          · rw [mark, lookahead]

/-- The entry that catches all else is an error, so the others are declared. -/
theorem declared_of_action? (sound : g.Sound) {id terminal : UInt32} {state : ParserState}
    {a : Action} (there : g.states[id.toNat]? = some state)
    (action : state.action? terminal = some a) (other : a.kind ≠ .error) :
    a ∈ state.declared ∧ a.low ≤ terminal ∧ terminal ≤ a.high := by
  obtain ⟨last, back, error⟩ := sound.catchAll state (Array.mem_of_getElem? there)
  rcases ParserState.mem_of_action? action with found | caught
  · exact found
  · cases back.symm.trans caught
    exact absurd error other

/-- From a sound state every step succeeds. -/
theorem yields_advance (sound : g.Sound) (healthy : c.Sound g) :
    Yields (c.advance g h options) (Follows g h c (c.history g h)) := by
  unfold advance history
  split
  · exact .ok (follows_done healthy .refl)
  · unfold step
    cases stack : c.stack with
    | nil => exact .pure (follows_done healthy .refl)
    | cons top rest =>
      have inside := healthy.standing.states top (stack ▸ List.mem_cons_self)
      obtain ⟨state, found, there⟩ : Yields (g.state top.state) fun state =>
          g.states[top.state.toNat]? = some state := yields_fetch inside
      have mem := Array.mem_of_getElem? there
      simp only [found, ok_bind, telling_ok]
      cases action : state.action? c.lookahead.id with
      | none => exact .pure (follows_done healthy .refl)
      | some a =>
        obtain ⟨kind, low, high, aux⟩ := a
        have declared := declared_of_action? sound there action
        cases kind with
        | shift =>
          obtain ⟨entry, low, high⟩ := declared nofun
          refine (yields_shift sound healthy (sound.shift state mem _ entry rfl)).bind ?_
          intro c' ⟨sound', run, delivers⟩
          exact .pure (follows_more sound' run (.shift stack there entry rfl low high delivers))
        | reduce =>
          obtain ⟨entry, _⟩ := declared nofun
          exact (yields_reduce sound healthy stack there action rfl
            (sound.reduce state mem _ entry rfl)).mono fun _ => And.left
        | accept => exact .pure (follows_done healthy .refl)
        | error => exact yields_fail sound healthy state

end Config

end GrammarMachine
