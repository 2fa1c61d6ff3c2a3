import GrammarMachine.Proofs.Evaluation.Callbacks
import GrammarMachine.Proofs.Parse.Lockstep

/-!
The callbacks of a parse, in the order in which they are made, each with the state it is made in.
They follow the parse itself: a token that is read has its lexical errors reported, a reduction has
its history, and an error is reported before the recovery reads on. What happens between two of them
is what `Acts` lists, so that a host that keeps a list of all it is asked and told ends up with
these.
-/

namespace GrammarMachine

open Evaluation

section Lists

variable {σ V : Type}

/-- Lexical errors are reported one after the other. -/
def reportCallbacks (h : Host σ V) (lexer : Lexer) :
    List Diagnostic → Evaluation σ V → List (Callback σ V)
  | [], _ => []
  | d :: rest, eval =>
    ⟨⟨lexer, eval⟩, .report .lexical d.origin d.message⟩ ::
      reportCallbacks h lexer rest (eval.report h .lexical d.origin d.message)

/-- The next token is read. -/
def pullCallbacks (g : Grammar) (h : Host σ V) (lexer : Lexer) (eval : Evaluation σ V) :
    List (Callback σ V) :=
  telling (lexer.next g) fun (_, lexer) =>
    let (diagnostics, lexer) := lexer.takeDiagnostics
    reportCallbacks h lexer diagnostics eval

namespace Config

def moment (c : Config σ V) : Moment σ V := ⟨c.lexer, c.eval⟩

/-- Tokens are skipped until one is found to resume on. -/
def recoverFromCallbacks (g : Grammar) (h : Host σ V) : Nat → Config σ V → List (Callback σ V)
  | 0, _ => []
  | n + 1, c =>
    if c.lookahead.isEnd || c.eval.control.stopped then []
    else
      match (g.recovery? c.lookahead.id).bind fun r => resumption? r.entries c.stack with
      | some _ => []
      | none =>
        pullCallbacks g h c.lexer c.eval ++
          telling (c.readOn g h) (recoverFromCallbacks g h n)

def recoverCallbacks (g : Grammar) (h : Host σ V) (c : Config σ V) : List (Callback σ V) :=
  if !g.hasRecovery then []
  else if c.recoveredAt == some c.lookahead.origin.pos && !c.lookahead.isEnd then
    pullCallbacks g h c.lexer c.eval ++
      telling (c.readOn g h) fun c => recoverFromCallbacks g h (c.lexer.turns + 1) c
  else recoverFromCallbacks g h (c.lexer.turns + 1) c

/-- A syntax error is reported, and then the parse recovers, unless it is to stop. -/
def failCallbacks (g : Grammar) (h : Host σ V) (options : Options) (state : ParserState)
    (c : Config σ V) : List (Callback σ V) :=
  let message := Message.syntaxError g h c.eval.host state c.lookahead
  let reported := c.reportSyntax g h state
  ⟨c.moment, .report .syntactic c.lookahead.origin message⟩ ::
    if options.stopOnError || reported.eval.control.stopped then []
    else reported.recoverCallbacks g h

/-- The callbacks of one step. -/
def callbacks (g : Grammar) (h : Host σ V) (options : Options) (c : Config σ V) :
    List (Callback σ V) :=
  if c.eval.control.stopped then []
  else
    match c.stack with
    | [] => []
    | top :: _ =>
      telling (g.state top.state) fun state =>
        match state.action? c.lookahead.id with
        | some ⟨.shift, _, _, _⟩ => pullCallbacks g h c.lexer (c.eval.shifting c.lookahead).2
        | some ⟨.reduce, _, _, rule⟩ =>
          (c.reduceHistory g h rule).flatMap (Event.callbacks g h c.lexer)
        | some ⟨.error, _, _, _⟩ => c.failCallbacks g h options state
        | _ => []

/-- The callbacks of at most `n` steps. -/
def runCallbacks (g : Grammar) (h : Host σ V) (options : Options) :
    Nat → Config σ V → List (Callback σ V)
  | 0, _ => []
  | n + 1, c =>
    c.callbacks g h options ++ telling (c.advance g h options) fun
      | .more next => runCallbacks g h options n next
      | .done _ _ => []

end Config

/-- The callbacks of a parse. -/
def parseCallbacks (control : Control) (g : Grammar) (h : Host σ V) (options : Options)
    (fuel : Nat) (source : Source) (host : σ) : List (Callback σ V) :=
  pullCallbacks g h (Lexer.start source) (.initial control host) ++
    telling (Config.start g h source control host) (Config.runCallbacks g h options fuel)

end Lists

variable {σ V : Type} {g : Grammar} {h : Host σ V} {options : Options}

section Reading

variable {l l' : Lexer} {e e' : Evaluation σ V} {t : Token}

theorem acts_reports (h : Host σ V) (l : Lexer) (ds : List Diagnostic) (e : Evaluation σ V) :
    Acts h ⟨l, e⟩ (reportCallbacks h l ds e)
      ⟨l, ds.foldl (fun eval d => eval.report h .lexical d.origin d.message) e⟩ := by
  induction ds generalizing e with
  | nil => exact .refl
  | cons d rest ih =>
    have first : Acts h ⟨l, e⟩ [⟨⟨l, e⟩, .report .lexical d.origin d.message⟩]
        ⟨l, e.report h .lexical d.origin d.message⟩ := Acts.refl.report nofun nofun
    exact first.trans (ih _)

/-- From the time a token has been read its lexical errors are all that happens. -/
theorem acts_pulled (pulled : pull g h l e = .ok (t, l', e')) :
    Acts h ⟨l', e⟩ (pullCallbacks g h l e) ⟨l', e'⟩ := by
  obtain ⟨⟨t₁, l₁⟩, next, same⟩ := bind_eq_ok_iff.1 pulled
  cases same
  rw [pullCallbacks, next]
  exact acts_reports h _ _ e

theorem kind_of_pullCallbacks {callback : Callback σ V}
    (mem : callback ∈ pullCallbacks g h l e) : callback.contact.kind = .lexical := by
  have reported : ∀ (l : Lexer) (ds : List Diagnostic) (e : Evaluation σ V),
      callback ∈ reportCallbacks h l ds e → callback.contact.kind = .lexical := by
    intro l ds e mem
    induction ds generalizing e with
    | nil => cases mem
    | cons d rest ih =>
      rcases List.mem_cons.1 mem with rfl | later
      · rfl
      · exact ih _ later
  unfold pullCallbacks telling at mem
  split at mem
  · exact reported _ _ _ mem
  · cases mem

end Reading

namespace Config

variable {c c' : Config σ V}

theorem acts_readOn (going : c.eval.control.stopped = false) (read : c.readOn g h = .ok c') :
    Acts h c.moment (pullCallbacks g h c.lexer c.eval) c'.moment := by
  obtain ⟨⟨t, l, e⟩, pulled, same⟩ := bind_eq_ok_iff.1 read
  cases same
  have read : Acts h c.moment [] ⟨l, c.eval⟩ := Acts.refl.work going l _ _ _
  exact read.trans (acts_pulled pulled)

theorem acts_shift (going : c.eval.control.stopped = false) {target : UInt32}
    (shifted : c.shift g h target = .ok c') :
    Acts h c.moment (pullCallbacks g h c.lexer (c.eval.shifting c.lookahead).2) c'.moment := by
  rw [shift_eq] at shifted
  obtain ⟨⟨t, l, e⟩, pulled, same⟩ := bind_eq_ok_iff.1 shifted
  cases same
  have allocated : Acts h c.moment [] ⟨l, (c.eval.shifting c.lookahead).2⟩ := by
    unfold shifting tokenAttrs
    cases c.lookahead.text with
    | none => exact Acts.refl.work going l _ _ _
    | some text =>
      have leaf : c.eval.Quiet { c.eval with graph := (c.eval.graph.alloc
        (.text text c.lookahead.origin.pos c.lookahead.error)).2 } := ⟨rfl, rfl, _, _, _, rfl⟩
      exact (leaf.acts (Graph.sameUsers_alloc _ rfl)).work going l _ _ _
  exact allocated.trans (acts_pulled pulled)

theorem acts_reduce {events : List (Event σ V)} (going : c.eval.control.stopped = false)
    (reduces : Reduces g h c events c') :
    Acts h c.moment (events.flatMap (Event.callbacks g h c.lexer)) c'.moment := by
  cases reduces with
  | none => exact .refl
  | some lexer deeds =>
    have counted : Acts h c.moment [] ⟨c.lexer, { c.eval with
        stats := { c.eval.stats with reductions := c.eval.stats.reductions + 1 } }⟩ :=
      Acts.refl.work going _ _ _ _
    rw [moment, moment, lexer]
    exact counted.trans (deeds.acts c.lexer)

theorem acts_resume (going : c.eval.control.stopped = false) {entry : RecoveryEntry}
    {frame : Frame} {below : List Frame} {resumed : Bool}
    (tried : c.resume g entry frame below = .ok (resumed, c')) :
    Acts h c.moment [] c'.moment := by
  rw [resume_eq] at tried
  obtain ⟨n, _, rest⟩ := bind_eq_ok_iff.1 tried
  split at rest
  · cases rest
    exact .refl
  · cases rest
    have placed := (deeds_allocMany_null (g := g) (h := h) n.attributeCount c.eval).1
    exact (placed.acts c.lexer).work going _ _ _ _

/-- What holds between two states, given the callbacks between them, of everything that happens to a
parse which meets an error, and of one thing after the other. -/
structure Composes (g : Grammar) (h : Host σ V)
    (R : Config σ V → List (Callback σ V) → Config σ V → Prop) : Prop where
  refl : ∀ c : Config σ V, R c [] c
  trans : ∀ {c c' c'' : Config σ V} {made more : List (Callback σ V)},
    R c made c' → R c' more c'' → R c (made ++ more) c''
  readOn : ∀ {c c' : Config σ V}, c.eval.control.stopped = false → c.readOn g h = .ok c' →
    R c (pullCallbacks g h c.lexer c.eval) c'
  resume : ∀ {c c' : Config σ V} {entry : RecoveryEntry} {frame : Frame} {below : List Frame}
    {resumed : Bool}, c.eval.control.stopped = false →
    c.resume g entry frame below = .ok (resumed, c') → R c [] c'
  report : ∀ {c : Config σ V} (state : ParserState), c.eval.control.stopped = false →
    R c [⟨c.moment, .report .syntactic c.lookahead.origin
      (Message.syntaxError g h c.eval.host state c.lookahead)⟩] (c.reportSyntax g h state)

section Composing

variable {R : Config σ V → List (Callback σ V) → Config σ V → Prop}

theorem Composes.recoverFrom (composes : Composes g h R) {n : Nat} {resumed : Bool}
    (tried : recoverFrom g h n c = .ok (resumed, c')) : R c (recoverFromCallbacks g h n c) c' := by
  induction n generalizing c with
  | zero => cases tried
  | succ n ih =>
    unfold Config.recoverFrom at tried
    unfold recoverFromCallbacks
    split at tried
    · next closed =>
      cases tried
      rw [if_pos closed]
      exact composes.refl _
    · next open_ =>
      rw [if_neg open_]
      rw [Bool.not_eq_true, Bool.or_eq_false_iff] at open_
      dsimp only at tried
      split at tried
      · next found =>
        rw [found]
        exact composes.resume open_.2 tried
      · next missing =>
        rw [missing]
        obtain ⟨c₁, read, rest⟩ := bind_eq_ok_iff.1 tried
        have first := composes.readOn open_.2 read
        dsimp only
        rw [read, telling_ok]
        exact composes.trans first (ih rest)

theorem Composes.recover (composes : Composes g h R) (going : c.eval.control.stopped = false)
    {resumed : Bool} (tried : c.recover g h = .ok (resumed, c')) :
    R c (c.recoverCallbacks g h) c' := by
  unfold Config.recover at tried
  unfold recoverCallbacks
  split at tried
  · next none =>
    cases tried
    rw [if_pos none]
    exact composes.refl _
  · next some =>
    rw [if_neg some]
    dsimp only at tried
    split at tried
    · next again =>
      obtain ⟨c₁, read, rest⟩ := bind_eq_ok_iff.1 tried
      have first := composes.readOn going read
      rw [if_pos again, read, telling_ok]
      exact composes.trans first (composes.recoverFrom rest)
    · next fresh =>
      rw [if_neg fresh]
      exact composes.recoverFrom tried

theorem Composes.fail (composes : Composes g h R) (going : c.eval.control.stopped = false)
    {state : ParserState} {p : Progress (Config σ V)} (failed : c.fail g h options state = .ok p) :
    R c (c.failCallbacks g h options state) p.state := by
  have reported := composes.report state going
  unfold Config.fail at failed
  unfold failCallbacks
  dsimp only at failed ⊢
  split at failed
  · next ends =>
    cases failed
    rw [if_pos ends]
    exact reported
  · next open_ =>
    rw [if_neg open_]
    rw [Bool.not_eq_true, Bool.or_eq_false_iff] at open_
    obtain ⟨⟨resumed, c'⟩, tried, rest⟩ := bind_eq_ok_iff.1 failed
    have later := composes.trans reported (composes.recover open_.2 tried)
    cases resumed <;> cases rest <;> exact later

/-- What holds of every step holds of a run. -/
theorem Composes.run (composes : Composes g h R) (sound : g.Sound)
    (step : ∀ {c : Config σ V} {p : Progress (Config σ V)}, c.Sound g →
      c.advance g h options = .ok p → R c (c.callbacks g h options) p.state)
    (healthy : c.Sound g) (fuel : Nat) :
    R c (c.runCallbacks g h options fuel) (c.last g h options fuel) := by
  induction fuel generalizing c with
  | zero => exact composes.refl c
  | succ fuel ih =>
    obtain ⟨p, result, follows⟩ : Yields (c.advance g h options) _ := yields_advance sound healthy
    have first := step healthy result
    unfold runCallbacks Config.last
    rw [result]
    cases p with
    | more next => exact composes.trans first (ih follows.sound)
    | done accepted last =>
      rw [telling_ok, List.append_nil]
      exact first

end Composing

theorem composes_acts (g : Grammar) (h : Host σ V) :
    Composes g h fun c made c' => Acts h c.moment made c'.moment where
  refl _ := .refl
  trans := Acts.trans
  readOn := acts_readOn
  resume going tried := acts_resume going tried
  report _ going := Acts.refl.report nofun fun _ => going

/-- All that a step can do, with the callbacks that it makes: it ends the parse where there is
nothing to follow or the host has asked to stop, or follows the entry for the lookahead. -/
inductive Makes (g : Grammar) (h : Host σ V) (options : Options) (c : Config σ V) :
    List (Callback σ V) → Progress (Config σ V) → Prop
  | ends : Makes g h options c [] (.done false c)
  | accept (going : c.eval.control.stopped = false) : Makes g h options c [] (.done true c)
  | shift {a : Action} {c' : Config σ V} (going : c.eval.control.stopped = false)
      (entry : c.entry? g = some a) (kind : a.kind = .shift)
      (shifted : c.shift g h a.aux = .ok c') :
      Makes g h options c (pullCallbacks g h c.lexer (c.eval.shifting c.lookahead).2) (.more c')
  | reduce {a : Action} {top : Frame} {below : List Frame} {state : ParserState}
      {p : Progress (Config σ V)} (going : c.eval.control.stopped = false)
      (stack : c.stack = top :: below) (there : g.states[top.state.toNat]? = some state)
      (action : state.action? c.lookahead.id = some a) (kind : a.kind = .reduce)
      (reduced : c.reduce g h a.aux = .ok p) :
      Makes g h options c ((c.reduceHistory g h a.aux).flatMap (Event.callbacks g h c.lexer)) p
  | error {a : Action} {state : ParserState} {p : Progress (Config σ V)}
      (going : c.eval.control.stopped = false) (entry : c.entry? g = some a)
      (kind : a.kind = .error) (failed : c.fail g h options state = .ok p) :
      Makes g h options c (c.failCallbacks g h options state) p

theorem makes_advance {p : Progress (Config σ V)} (result : c.advance g h options = .ok p) :
    c.Makes g h options (c.callbacks g h options) p := by
  unfold advance at result
  unfold callbacks
  split at result
  · next stopped =>
    cases result
    rw [if_pos stopped]
    exact .ends
  · next going =>
    rw [if_neg going]
    rw [Bool.not_eq_true] at going
    unfold step at result
    cases stack : c.stack with
    | nil =>
      rw [stack] at result
      cases result
      exact .ends
    | cons top below =>
      rw [stack] at result
      obtain ⟨state, found, rest⟩ := bind_eq_ok_iff.1 result
      have entry := entry?_eq stack found
      dsimp only
      rw [found, telling_ok]
      cases action : state.action? c.lookahead.id with
      | none =>
        rw [action] at rest
        cases rest
        exact .ends
      | some a =>
        rw [action] at rest entry
        obtain ⟨kind, low, high, aux⟩ := a
        cases kind with
        | shift =>
          obtain ⟨c', shifted, same⟩ := bind_eq_ok_iff.1 rest
          cases same
          exact .shift going entry rfl shifted
        | reduce => exact .reduce going stack (fetch_eq_ok_iff.1 found) action rfl rest
        | accept =>
          cases rest
          exact .accept going
        | error => exact .error going entry rfl rest

/-- What a step does, with its callbacks. -/
theorem acts_advance (sound : g.Sound) (healthy : c.Sound g) {p : Progress (Config σ V)}
    (result : c.advance g h options = .ok p) :
    Acts h c.moment (c.callbacks g h options) p.state.moment := by
  have makes := makes_advance result
  generalize c.callbacks g h options = made at makes ⊢
  cases makes with
  | ends => exact .refl
  | accept => exact .refl
  | shift going _ _ shifted => exact acts_shift going shifted
  | @reduce a top below state p going stack there action kind reduced =>
    obtain ⟨entry, _⟩ := declared_of_action? sound there action (by rw [kind]; nofun)
    obtain ⟨p', same, _, reduces⟩ : Yields (c.reduce g h a.aux) _ :=
      yields_reduce sound healthy stack there action kind
        (sound.reduce state (Array.mem_of_getElem? there) a entry kind)
    cases reduced.symm.trans same
    exact acts_reduce going reduces
  | error going _ _ failed => exact (composes_acts g h).fail going failed

theorem acts_run (sound : g.Sound) (healthy : c.Sound g) (fuel : Nat) :
    Acts h c.moment (c.runCallbacks g h options fuel) (c.last g h options fuel).moment :=
  (composes_acts g h).run sound (fun healthy result => acts_advance sound healthy result)
    healthy fuel

end Config

/-- What a parse does, with its callbacks, from the time its first token has been read. -/
theorem acts_parse (sound : g.Sound) (h : Host σ V) (control : Control) (options : Options)
    (fuel : Nat) (source : Source) (host : σ) :
    ∃ lexer last, parseLast control g h options fuel source host = .ok last ∧
      Acts h ⟨lexer, .initial control host⟩ (parseCallbacks control g h options fuel source host)
        last.moment := by
  obtain ⟨c, begun, healthy, _⟩ := Config.yields_start sound h source control host
  have rest : Acts h c.moment (c.runCallbacks g h options fuel) _ :=
    Config.acts_run sound healthy fuel
  refine ⟨c.lexer, c.last g h options fuel, by rw [parseLast, begun]; rfl, ?_⟩
  rw [parseCallbacks, begun, telling_ok]
  obtain ⟨⟨t, l, e⟩, pulled, same⟩ := bind_eq_ok_iff.1 begun
  cases same
  exact (acts_pulled pulled).trans rest

end GrammarMachine
