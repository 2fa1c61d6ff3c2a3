import GrammarMachine.Proofs.Evaluation.Refusals
import GrammarMachine.Proofs.Parse.Arithmetic
import GrammarMachine.Proofs.Parse.Frames
import GrammarMachine.Proofs.Parse.Inversion
import GrammarMachine.Proofs.Parse.Resumptions

/-!
The calculator on any text. However much of the text is unreadable or out of place, and wherever
recoveries have cut the stack, each frame follows an edge of the chart and its attributes suit the
symbol of that edge. So a reduction always finds its operands, the host is always called with what
it asks for, and a parse ends without success only after an error of the text, unless it is stopped.
-/

namespace GrammarMachine

open Evaluation

namespace Samples.Calculator

theorem chart_firm (flavor : Flavor) : chart.Firm (grammar flavor) where
  deep := by cases flavor <;> decide +kernel
  goto := by cases flavor <;> decide +kernel
  recovery r listed e entry target leads := by
    -- There is one target at most, so not all numbers have to be tried.
    have all : ∀ r ∈ (grammar flavor).recoveries, ∀ e ∈ r.entries,
        (((grammar flavor).next? e.state (.nonterminal e.nonterminal)).all fun target =>
          decide (⟨e.state, .nonterminal e.nonterminal, target⟩ ∈ chart.edges)) = true := by
      cases flavor <;> decide +kernel
    have here := all r listed e entry
    rw [leads] at here
    exact of_decide_eq_true here

/-- Between two steps of a parse, whatever its text. -/
structure Orderly (c : Config Machine Int) : Prop where
  sound : c.Sound (grammar .hard)
  faces : ∃ null rest, c.lexer.cursor.Faces null rest
  numeric : Numeric c.lookahead
  furnished : chart.Furnished (Suits c.eval.graph) c.stack
  fair : Fair c.eval

section Reading

variable {e e' : Evaluation Machine Int} {l l' : Lexer} {t : Token}

theorem Fair.reports (fair : Fair e) (ds : List Diagnostic) :
    Fair (ds.foldl (fun eval d => eval.report host .lexical d.origin d.message) e) := by
  induction ds generalizing e with
  | nil => exact fair
  | cons d rest ih =>
    have same := undisturbed_report host .lexical d.origin d.message e
    exact ih ⟨same.prompt fair.prompt, fair.candid.report _ _ nofun⟩

/-- The next token, in front of other characters. -/
theorem Fair.pull (fair : Fair e) (faces : ∃ null rest, l.cursor.Faces null rest)
    (pulled : pull (grammar .hard) host l e = .ok (t, l', e')) :
    (∃ null rest, l'.cursor.Faces null rest) ∧ Numeric t ∧ Fair e' ∧ e'.graph = e.graph := by
  obtain ⟨null, rest, faces⟩ := faces
  obtain ⟨⟨_, l₁⟩, next, same⟩ := bind_eq_ok_iff.1 pulled
  cases same
  obtain ⟨numeric, rest', faces'⟩ := numeric_nextFrom faces next
  exact ⟨⟨null, rest', faces'⟩, numeric, fair.reports _, (undisturbed_reports host _ e).graph⟩

end Reading

section Nodes

variable {σ V : Type} {n : Nonterminal}

theorem resuming_of_one (one : n.attributeCount = 1) (e : Evaluation σ V) :
    e.resuming n = ([e.graph.size], { e with
      graph := (e.graph.alloc .null).2
      stats := { e.stats with recoveries := e.stats.recoveries + 1 } }) := by
  unfold Evaluation.resuming
  rw [one]
  rfl

variable {e : Evaluation Machine Int}

theorem Fair.resuming (fair : Fair e) (n : Nonterminal) : Fair (e.resuming n).2 :=
  ⟨⟨fair.prompt.deferred, fair.prompt.replays⟩, fair.candid⟩

theorem Fair.reducing (fair : Fair e) (o : Origin) (n : Nonterminal) : Fair (e.reducing o n).2 :=
  ⟨⟨fair.prompt.deferred, fair.prompt.replays⟩, fair.candid⟩

theorem Fair.shifting (fair : Fair e) (t : Token) : Fair (e.shifting t).2 := by
  obtain ⟨⟨deferred, replays⟩, candid⟩ := fair
  unfold Evaluation.shifting Config.tokenAttrs
  cases t.text <;> exact ⟨⟨deferred, replays⟩, candid⟩

end Nodes

namespace Orderly

variable {c c' : Config Machine Int} {options : Options}

theorem readOn (orderly : Orderly c) (read : c.readOn (grammar .hard) host = .ok c') :
    Orderly c' := by
  obtain ⟨healthy, faces, _, furnished, fair⟩ := orderly
  obtain ⟨_, same, reads⟩ : Yields (c.readOn (grammar .hard) host) _ :=
    Config.yields_readOn (Grammar.sound_of_check (check_grammar .hard)) healthy
  cases read.symm.trans same
  have healthy' := reads.sound healthy
  obtain ⟨_, pulled, rest⟩ := bind_eq_ok_iff.1 read
  cases rest
  obtain ⟨faces', numeric, fair', graph⟩ := fair.pull faces pulled
  exact ⟨healthy', faces', numeric, graph ▸ furnished, fair'⟩

/-- A recovery goes along an edge, with an error for the phrase. -/
theorem resume (orderly : Orderly c) {r : Recovery} {entry : RecoveryEntry} {frame : Frame}
    {below : List Frame} {resumed : Bool} (going : c.lookahead.isEnd = false)
    (listed : (grammar .hard).recovery? c.lookahead.id = some r)
    (found : Config.resumption? r.entries c.stack = some (entry, frame, below))
    (tried : c.resume (grammar .hard) entry frame below = .ok (resumed, c')) : Orderly c' := by
  have whole := orderly
  obtain ⟨healthy, faces, numeric, furnished, fair⟩ := orderly
  have sound := Grammar.sound_of_check (check_grammar .hard)
  have listed := List.mem_of_find?_eq_some listed
  obtain ⟨mem, subset⟩ := Config.mem_of_resumption? found
  obtain ⟨above, split, _, first⟩ := Config.topmost_of_resumption? found
  obtain ⟨_, same, recovers⟩ : Yields (c.resume (grammar .hard) entry frame below) _ :=
    Config.yields_resume (h := host) sound healthy going subset (sound.recovery r listed entry mem)
  cases tried.symm.trans same
  rcases Config.of_resume tried with rfl | ⟨n, target, there, goto, eval, stack, lexer, lookahead⟩
  · exact whole
  have one := attributeCount_eq n (Array.mem_of_getElem? there)
  have state : entry.state = frame.state := by simpa using List.find?_some first
  have next : (grammar .hard).next? entry.state (.nonterminal entry.nonterminal) = some target := by
    rw [Grammar.next?, there, Option.bind_some, state, goto]
  have edge := (chart_firm .hard).recovery r listed entry mem target next
  have made := resuming_of_one one c.eval
  refine ⟨recovers.sound, lexer ▸ faces, lookahead ▸ numeric, ?_, eval ▸ fair.resuming n⟩
  have grows := recovers.run.grows
  have linked := recovers.sound.eval.graph.linked
  have null := Graph.getElem?_alloc c.eval.graph .null c.eval.graph.size
  rw [if_pos rfl] at null
  rw [eval, made] at grows linked ⊢
  rw [stack, made]
  rw [split] at furnished
  refine .push (furnished.under.imp fun _ _ suits => suits.grows grows linked) (state ▸ edge)
    (.phrase (Graph.resolves_of_plain null rfl rfl) fun flawless => ?_)
  cases flawless

theorem shift (orderly : Orderly c) {a : Action} (entry : c.entry? (grammar .hard) = some a)
    (kind : a.kind = .shift) (shifted : c.shift (grammar .hard) host a.aux = .ok c')
    (healthy : c'.Sound (grammar .hard)) (grows : c.eval.graph.Grows c'.eval.graph) :
    Orderly c' := by
  obtain ⟨_, faces, numeric, furnished, fair⟩ := orderly
  have sound := Grammar.sound_of_check (check_grammar .hard)
  obtain ⟨top, below, stack, entry⟩ := Config.exists_top_of_entry? entry
  have edge := (chart_fits .hard).edge_of_shift sound entry kind
  obtain ⟨pulled, stack'⟩ := Config.of_shift shifted
  obtain ⟨faces', numeric', fair', graph⟩ := (fair.shifting c.lookahead).pull faces pulled
  refine ⟨healthy, faces', numeric', ?_, fair'⟩
  have lower := furnished.imp fun _ _ suits => suits.grows grows healthy.eval.graph.linked
  rw [stack] at lower stack'
  rw [stack']
  refine .push lower edge ?_
  by_cases digits : c.lookahead.id = number
  · obtain ⟨text, carried, numeral⟩ := numeric digits
    obtain ⟨attrs, graph'⟩ := shifting_of_text carried c.eval
    have there := Graph.getElem?_alloc c.eval.graph
      (.text text c.lookahead.origin.pos c.lookahead.error) c.eval.graph.size
    rw [if_pos rfl, ← graph', ← graph] at there
    rw [digits, attrs]
    exact .numeral (Graph.resolves_of_plain there rfl rfl) numeral
  · exact .sign digits

/-- A reduction finds what it needs, and the parse goes on. -/
theorem reduce (orderly : Orderly c) {a : Action} (entry : c.entry? (grammar .hard) = some a)
    (kind : a.kind = .reduce) {p : Progress (Config Machine Int)}
    (reduced : c.reduce (grammar .hard) host a.aux = .ok p)
    (healthy : p.state.Sound (grammar .hard)) :
    ∃ c', p = .more c' ∧ Orderly c' := by
  obtain ⟨sound₀, faces, numeric, furnished, fair⟩ := orderly
  have sound := Grammar.sound_of_check (check_grammar .hard)
  obtain ⟨top, below, stack, entry⟩ := Config.exists_top_of_entry? entry
  rw [stack] at furnished
  obtain ⟨r, production, base, under, n, target, rule, there, popped, lhs, goto, edge, suits,
    lower⟩ := furnished.reduces (chart_fits .hard) (chart_firm .hard) sound entry kind
  rw [← stack] at popped suits
  obtain ⟨r', rule', ⟨last, _, nowhere⟩ | ⟨c', _, _, _, _, rfl, _⟩⟩ :=
    Config.reduce_eq_ok host.patient_nowhere reduced
  · cases rule.symm.trans rule'
    refine absurd goto (nowhere base.state (under.map Frame.state) n target ?_ lhs)
    rw [Config.states_drop, popped, List.map_cons]
  refine ⟨c', rfl, ?_⟩
  obtain ⟨r', n', base', under', target', o, rule', popped', lhs', goto', ran, stack', lexer,
    lookahead⟩ := Config.reduce_eq_more reduced
  cases rule.symm.trans rule'
  cases popped.symm.trans popped'
  cases lhs.symm.trans lhs'
  cases goto.symm.trans goto'
  have one := attributeCount_eq n (Array.mem_of_getElem? lhs)
  have linked := healthy.eval.graph.linked
  obtain ⟨ran, before⟩ := ran_of_reducing sound sound₀ (Array.getElem?_eq_some_iff.1 rule).1 ran
  have reduced := Reduced.of_ran one ran
  obtain ⟨phrase, fair'⟩ := reduced.phrase there
    (suits.imp fun _ _ suits => suits.grows before reduced.sound.graph.linked) (fair.reducing o n)
  refine ⟨healthy, lexer ▸ faces, lookahead ▸ numeric, ?_, fair'⟩
  rw [stack', reducing_of_one one]
  exact .push (lower.imp fun _ _ suits => suits.grows (before.trans reduced.grows) linked) edge
    phrase

/-- A step keeps order, and ends a parse without success only if it is stopped or an error of the
text has been counted. -/
theorem advance (orderly : Orderly c) {p : Progress (Config Machine Int)}
    (result : c.advance (grammar .hard) host options = .ok p) :
    Orderly p.state ∧ ∀ last, p = .done false last →
      last.eval.control.stopped = true ∨ 1 ≤ last.eval.stats.syntaxErrors := by
  have sound := Grammar.sound_of_check (check_grammar .hard)
  obtain ⟨_, same, follows⟩ : Yields (c.advance (grammar .hard) host options) _ :=
    Config.yields_advance sound orderly.sound
  cases result.symm.trans same
  cases Config.acts_of_advance result with
  | stopped on =>
    refine ⟨orderly, fun last same => ?_⟩
    cases same
    exact .inl on
  | lost none =>
    obtain ⟨a, entry⟩ := Config.exists_entry? sound orderly.sound orderly.furnished.ne_nil
    cases none.symm.trans entry
  | shift entry kind shifted =>
    exact ⟨orderly.shift entry kind shifted follows.sound follows.run.grows,
      fun _ same => nomatch same⟩
  | reduce entry kind reduced =>
    obtain ⟨c', rfl, orderly'⟩ := orderly.reduce entry kind reduced follows.sound
    exact ⟨orderly', fun _ same => nomatch same⟩
  | accept => exact ⟨orderly, fun _ same => nomatch same⟩
  | @error a state _ entry kind failed =>
    have kept : Config.Kept (grammar .hard) host Orderly :=
      ⟨readOn, fun before going listed found tried => before.resume going listed found tried⟩
    obtain ⟨healthy, faces, numeric, furnished, fair⟩ := orderly
    have same : c.eval.Undisturbed (c.reportSyntax (grammar .hard) host state).eval :=
      undisturbed_report host _ _ _ _
    have reported : Orderly (c.reportSyntax (grammar .hard) host state) :=
      ⟨Config.sound_reportSyntax healthy state, faces, numeric, same.graph ▸ furnished,
        same.prompt fair.prompt, fair.candid.report _ _ nofun⟩
    refine ⟨kept.fail reported failed, fun last same => ?_⟩
    subst same
    exact .inr (Config.syntaxErrors_fail failed)

theorem run (orderly : Orderly c) {fuel : Nat} {outcome : Outcome Machine Int}
    (ends : c.run (grammar .hard) host options fuel = .ok (some outcome)) :
    ∃ accepted last, c.last (grammar .hard) host options fuel = last ∧
      outcome = .ofConfig accepted last ∧ Orderly last ∧
      (accepted = false →
        last.eval.control.stopped = true ∨ 1 ≤ last.eval.stats.syntaxErrors) := by
  induction fuel generalizing c with
  | zero => cases ends
  | succ fuel ih =>
    obtain ⟨p, result, rest⟩ := bind_eq_ok_iff.1 ends
    obtain ⟨orderly', failed⟩ := orderly.advance result
    unfold Config.last
    rw [result]
    cases p with
    | more next => exact ih orderly' rest
    | done accepted final =>
      cases rest
      exact ⟨accepted, final, rfl, rfl, orderly', fun refused => failed _ (refused ▸ rfl)⟩

end Orderly

theorem orderly_start {text : String} {null stop : Bool} {control : Control}
    {c : Config Machine Int} (begun : Config.start (grammar .hard) host (.ofText text null) control
      (Machine.start stop) = .ok c) : Orderly c := by
  obtain ⟨_, same, healthy, _⟩ := Config.yields_start
    (Grammar.sound_of_check (check_grammar .hard)) host (.ofText text null) control
    (Machine.start stop)
  cases begun.symm.trans same
  obtain ⟨_, pulled, rest⟩ := bind_eq_ok_iff.1 begun
  cases rest
  have fair : Fair (.initial control (Machine.start stop)) := ⟨⟨rfl, rfl⟩, nofun⟩
  obtain ⟨faces, numeric, fair', _⟩ := fair.pull ⟨null, _, Cursor.faces_start text null⟩ pulled
  exact ⟨healthy, faces, numeric, .bottom rfl, fair'⟩

theorem orderly_reached {text : String} {null stop : Bool} {control : Control} {options : Options}
    {c : Config Machine Int} (reached : Config.Reached (grammar .hard) host options control
      (.ofText text null) (Machine.start stop) c) : Orderly c := by
  induction reached with
  | start begun => exact orderly_start begun
  | step _ result ih => exact (ih.advance result).1

end Samples.Calculator

open Samples.Calculator

/-- The calculator never fails on its own account, however malformed its text. The parse comes to an
outcome; whenever it reduces, the right-hand side is on the stack and the left-hand side has
somewhere to go, so that without success it ends only if it was stopped or has met a syntax error;
calls are refused for numbers, sums and products that are too large, and for nothing else; and no
action ever waits. -/
theorem calculator_blames_its_text (text : String) (null stop : Bool) (options : Options) :
    (∃ fuel outcome, parse (grammar .hard) host options fuel (.ofText text null)
        (Machine.start stop) = .ok (some outcome)) ∧
      (∀ c a, Config.Reached (grammar .hard) host options options.control (.ofText text null)
          (Machine.start stop) c → c.entry? (grammar .hard) = some a → a.kind = .reduce →
        ∃ r base below n target, (grammar .hard).rules[a.aux.toNat]? = some r ∧
          c.stack.drop r.length.toNat = base :: below ∧
          (grammar .hard).nonterminals[r.lhs.toNat]? = some n ∧
          n.goto? base.state = some target) ∧
      ∀ fuel outcome, parse (grammar .hard) host options fuel (.ofText text null)
          (Machine.start stop) = .ok (some outcome) →
        ∃ last, parseLast options.control (grammar .hard) host options fuel (.ofText text null)
            (Machine.start stop) = .ok last ∧
          (outcome.accepted = false → last.eval.control.stopped = false →
            1 ≤ outcome.stats.syntaxErrors) ∧
          (∀ r ∈ outcome.host.log.reports, r.kind = .semantic → Refusal r.message) ∧
          outcome.stats.deferred = 0 ∧ outcome.stats.replays = 0 := by
  have sound := Grammar.sound_of_check (check_grammar .hard)
  obtain ⟨c, begun, healthy, _⟩ := Config.yields_start sound host (.ofText text null)
    options.control (Machine.start stop)
  refine ⟨?_, fun c a reached entry kind => ?_, fun fuel outcome ends => ?_⟩
  · exact exists_parseUnder sound (terminating .hard) host _ _ _ _
  · obtain ⟨top, below, stack, entry⟩ := Config.exists_top_of_entry? entry
    have furnished := (orderly_reached reached).furnished
    rw [stack] at furnished ⊢
    obtain ⟨r, _, base, under, n, target, rule, _, popped, lhs, goto, _⟩ :=
      furnished.reduces (chart_fits .hard) (chart_firm .hard) sound entry kind
    exact ⟨r, base, under, n, target, rule, popped, lhs, goto⟩
  · rw [parse, parseUnder, begun] at ends
    obtain ⟨accepted, last, ended, rfl, orderly, failed⟩ := (orderly_start begun).run ends
    refine ⟨last, by rw [parseLast, begun, ← ended]; rfl, fun refused going => ?_,
      orderly.fair.candid, orderly.fair.prompt.deferred, orderly.fair.prompt.replays⟩
    exact (failed refused).resolve_left (by simp [going])

/-- A product without a first factor and with one that is too large, an unreadable character, the
end of a comment that was never opened, and a parenthesis that is never closed. -/
theorem calculator_blames_malformed_product : ∃ outcome last,
    parse (grammar .hard) host .default 40 (.ofText "(*9223372036854775808 ? */ + 2" false)
      (Machine.start false) = .ok (some outcome) ∧
    parseLast .initial (grammar .hard) host .default 40
      (.ofText "(*9223372036854775808 ? */ + 2" false) (Machine.start false) = .ok last ∧
    outcome.accepted = false ∧ last.eval.control.stopped = false ∧
    1 ≤ outcome.stats.syntaxErrors ∧ outcome.stats.recoveries = 1 ∧
    outcome.stats.deferred = 0 ∧ outcome.stats.replays = 0 ∧
    ∃ r, outcome.host.log.reports[3]? = some r ∧ r.kind = .semantic ∧ Refusal r.message := by
  obtain ⟨outcome, ended, seen⟩ : ∃ outcome, parse (grammar .hard) host .default 40
      (.ofText "(*9223372036854775808 ? */ + 2" false) (Machine.start false) =
        .ok (some outcome) ∧ (outcome.accepted, outcome.stats.recoveries,
          (outcome.host.log.reports[3]?).map Report.kind) = (false, 1, some .semantic) :=
    exists_of_run (by decide +kernel)
  have going : (parseLast .initial (grammar .hard) host .default 40
      (.ofText "(*9223372036854775808 ? */ + 2" false) (Machine.start false)).toOption.map
        (fun c => c.eval.control.stopped) = some false := by decide +kernel
  simp only [Prod.mk.injEq] at seen
  obtain ⟨refused, recoveries, kind⟩ := seen
  obtain ⟨r, there, semantic⟩ := Option.map_eq_some_iff.1 kind
  obtain ⟨last, ends, failed, refusals, deferred, replays⟩ := (calculator_blames_its_text
    "(*9223372036854775808 ? */ + 2" false false .default).2.2 40 outcome ended
  have ends : parseLast .initial (grammar .hard) host .default 40
      (.ofText "(*9223372036854775808 ? */ + 2" false) (Machine.start false) = .ok last := ends
  rw [ends] at going
  have going := Option.some.inj going
  exact ⟨outcome, last, ended, ends, refused, going, failed refused going, recoveries, deferred,
    replays, r, there, semantic, refusals r (Array.mem_of_getElem? there) semantic⟩

end GrammarMachine
