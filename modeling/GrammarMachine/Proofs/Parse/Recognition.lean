import GrammarMachine.Parse.Run
import GrammarMachine.Proofs.Evaluation.Calm
import GrammarMachine.Proofs.Grammar.Sound
import GrammarMachine.Proofs.Lexer.Quiet
import GrammarMachine.Proofs.Parse.Lockstep

/-!
What a parse accepts, apart from all it computes. `Grammar.Accepts` is the bare machine on states
and terminals. A parse under a host that never stops it succeeds without an error exactly if its
text has tokens without a diagnostic and the bare machine accepts these: each step of the parse
keeps the one side and the other.
-/

namespace GrammarMachine

open Evaluation

variable {σ V : Type} {g : Grammar} {h : Host σ V} {options : Options}
  {I : σ → Prop}

/-- Where there are no states to be in, every host is patient. -/
theorem Host.patient_nowhere (h : Host σ V) : h.Patient fun _ => False :=
  ⟨fun _ _ _ => False.elim, fun _ _ _ => False.elim⟩

/-- The terminal ahead. The end of text stands behind all others. -/
def ahead (ids : List UInt32) : UInt32 := ids.headD endOfText

namespace Grammar

/-- The entry of a state for a terminal. -/
def entry? (g : Grammar) (s terminal : UInt32) : Option Action :=
  g.states[s.toNat]?.bind fun state => state.action? terminal

/-- With these states on the stack, top first, and these terminals ahead, the machine comes to an
entry that accepts. -/
inductive Accepts (g : Grammar) : List UInt32 → List UInt32 → Prop
  | shift {s t : UInt32} {below ids : List UInt32} {a : Action} (entry : g.entry? s t = some a)
      (kind : a.kind = .shift) (rest : Accepts g (a.aux :: s :: below) ids) :
      Accepts g (s :: below) (t :: ids)
  | reduce {s base target : UInt32} {below under ids : List UInt32} {a : Action} {r : Rule}
      {n : Nonterminal} (entry : g.entry? s (ahead ids) = some a) (kind : a.kind = .reduce)
      (rule : g.rules[a.aux.toNat]? = some r)
      (popped : (s :: below).drop r.length.toNat = base :: under)
      (lhs : g.nonterminals[r.lhs.toNat]? = some n) (goto : n.goto? base = some target)
      (rest : Accepts g (target :: base :: under) ids) : Accepts g (s :: below) ids
  | accept {s : UInt32} {below : List UInt32} {a : Action} (entry : g.entry? s endOfText = some a)
      (kind : a.kind = .accept) : Accepts g (s :: below) []

/-- Entries that shift are not for the end of text, entries that accept for nothing else. -/
structure EndsLast (g : Grammar) : Prop where
  shift : ∀ {s terminal : UInt32} {a : Action}, g.entry? s terminal = some a → a.kind = .shift →
    terminal ≠ endOfText
  accept : ∀ {s terminal : UInt32} {a : Action}, g.entry? s terminal = some a → a.kind = .accept →
    terminal = endOfText

/-- The bare machine does not go on from an error. -/
theorem Accepts.exists_entry {s : UInt32} {below ids : List UInt32}
    (accepts : g.Accepts (s :: below) ids) :
    ∃ a, g.entry? s (ahead ids) = some a ∧ a.kind ≠ .error := by
  cases accepts with
  | shift entry kind => exact ⟨_, entry, by simp [kind]⟩
  | reduce entry kind => exact ⟨_, entry, by simp [kind]⟩
  | accept entry kind => exact ⟨_, entry, by simp [kind]⟩

end Grammar

theorem Lexer.Quiet.ahead_eq {t : Token} {l : Lexer} {ids : List UInt32}
    (quiet : Lexer.Quiet g t l ids) : ahead ids = t.id := by
  cases quiet with
  | ended ended =>
    rw [Token.isEnd, beq_iff_eq] at ended
    exact ended.symm
  | more => rfl

/-- No lexical and no syntax error so far. -/
def Evaluation.Clean (e : Evaluation σ V) : Prop :=
  e.stats.lexicalErrors = 0 ∧ e.stats.syntaxErrors = 0

theorem Evaluation.Calm.clean_iff {e e' : Evaluation σ V} (calm : e.Calm I e') :
    e'.Clean ↔ e.Clean := by
  rw [Clean, Clean, calm.lexical, calm.syntactic]

section Reading

/-- Each diagnostic counts as a lexical error. -/
theorem reports_count (patient : h.Patient I) (ds : List Diagnostic) (e : Evaluation σ V) :
    let e' := ds.foldl (fun eval d => eval.report h .lexical d.origin d.message) e
    (e.Going I → e'.Going I) ∧ e'.stats.lexicalErrors = e.stats.lexicalErrors + ds.length ∧
      e'.stats.syntaxErrors = e.stats.syntaxErrors := by
  induction ds generalizing e with
  | nil => exact ⟨id, rfl, rfl⟩
  | cons d rest ih =>
    obtain ⟨going, lexical, syntactic⟩ := ih (e.report h .lexical d.origin d.message)
    refine ⟨fun before => going (going_report patient _ _ _ before), ?_, syntactic⟩
    rw [List.foldl_cons, lexical, stats_report, List.length_cons]
    simp only [Stats.count]
    omega

/-- Reading on keeps the errors in step with the diagnostics, and takes these out of the lexer. -/
theorem pull_eq_ok (patient : h.Patient I) {l l' : Lexer} {e e' : Evaluation σ V} {t : Token}
    (pulled : pull g h l e = .ok (t, l', e')) :
    ∃ l₁, l.next g = .ok (t, l₁) ∧ (l₁.diagnostics = #[] → l' = l₁) ∧ (e.Going I → e'.Going I) ∧
      (e'.Clean ↔ e.Clean ∧ l₁.diagnostics = #[]) ∧
      e'.stats.syntaxErrors = e.stats.syntaxErrors := by
  obtain ⟨⟨_, l₁⟩, next, rest⟩ := bind_eq_ok_iff.1 pulled
  cases rest
  obtain ⟨going, lexical, syntactic⟩ := reports_count patient l₁.diagnostics.toList e
  refine ⟨l₁, next, ?_, going, ?_, syntactic⟩
  · intro none
    rw [← none]
  · rw [Array.length_toList] at lexical
    rw [Clean, Clean, lexical, syntactic, ← Array.size_eq_zero_iff]
    omega

end Reading

namespace Config

variable {c c' : Config σ V}

/-- The states on the stack. -/
def states (c : Config σ V) : List UInt32 := c.stack.map Frame.state

/-- No error so far, and none to come: the rest of the text is accepted. -/
def Recognizes (g : Grammar) (c : Config σ V) : Prop :=
  c.eval.Clean ∧ ∃ ids, Lexer.Quiet g c.lookahead c.lexer ids ∧ g.Accepts c.states ids

end Config

namespace Progress

/-- What a step leaves to be recognized, or has decided. -/
def Recognizes (g : Grammar) : Progress (Config σ V) → Prop
  | .more c => c.Recognizes g
  | .done accepted last => accepted = true ∧ last.eval.Clean

/-- Where the parse has not ended, it is not stopped either. -/
def Going (I : σ → Prop) : Progress (Config σ V) → Prop
  | .more c => c.eval.Going I
  | .done _ _ => True

end Progress

namespace Config

variable {c c' : Config σ V} {s : UInt32} {below : List UInt32} {a : Action}

theorem states_drop (c : Config σ V) (n : Nat) :
    c.states.drop n = (c.stack.drop n).map Frame.state := by
  simp [states, List.map_drop]

theorem calm_tokenAttrs (t : Token) (e : Evaluation σ V) : e.Calm I (tokenAttrs t e).2 := by
  unfold tokenAttrs
  split <;> exact ⟨id, rfl, rfl⟩

/-- A shift reads the next token. -/
theorem shift_eq_ok (patient : h.Patient I) {target : UInt32}
    (shifted : c.shift g h target = .ok c') :
    ∃ l, c.lexer.next g = .ok (c'.lookahead, l) ∧ (l.diagnostics = #[] → c'.lexer = l) ∧
      c'.states = target :: c.states ∧ (c.eval.Going I → c'.eval.Going I) ∧
      (c'.eval.Clean ↔ c.eval.Clean ∧ l.diagnostics = #[]) := by
  have calm := calm_tokenAttrs (I := I) c.lookahead c.eval
  unfold shift at shifted
  dsimp only at shifted
  generalize tokenAttrs c.lookahead c.eval = named at shifted calm
  obtain ⟨⟨t, l', e⟩, pulled, same⟩ := bind_eq_ok_iff.1 shifted
  cases same
  obtain ⟨l, next, lexer, going, clean, _⟩ := pull_eq_ok patient pulled
  refine ⟨l, next, lexer, rfl, fun before => going (calm.going before), ?_⟩
  rw [clean, ← calm.clean_iff]
  rfl

theorem recognizes_shift (patient : h.Patient I) (last : g.EndsLast)
    (top : c.states = s :: below) (entry : g.entry? s c.lookahead.id = some a)
    (kind : a.kind = .shift) (going : c.eval.Going I) (shifted : c.shift g h a.aux = .ok c') :
    (c'.Recognizes g ↔ c.Recognizes g) ∧ c'.eval.Going I := by
  have more : c.lookahead.isEnd = false := by
    simpa [Token.isEnd] using last.shift entry kind
  obtain ⟨l, next, same, states, stays, clean⟩ := shift_eq_ok patient shifted
  refine ⟨?_, stays going⟩
  rw [Recognizes, Recognizes, states, top, clean]
  constructor
  · rintro ⟨⟨before, none⟩, ids, quiet, accepts⟩
    rw [same none] at quiet
    exact ⟨before, c.lookahead.id :: ids, .more more next none quiet, .shift entry kind accepts⟩
  · rintro ⟨before, ids, quiet, accepts⟩
    cases quiet with
    | ended ended =>
      rw [more] at ended
      cases ended
    | more _ next' none quiet =>
      cases next.symm.trans next'
      refine ⟨⟨before, none⟩, _, (same none).symm ▸ quiet, ?_⟩
      cases accepts with
      | shift entry' _ rest =>
        cases entry.symm.trans entry'
        exact rest
      | reduce entry' kind' =>
        cases entry.symm.trans entry'
        cases kind.symm.trans kind'

/-- A reduction reads nothing and counts no errors. It ends the parse only if the bare machine has
nowhere to go. -/
theorem reduce_eq_ok (patient : h.Patient I) {id : UInt32} {p : Progress (Config σ V)}
    (reduced : c.reduce g h id = .ok p) :
    ∃ r, g.rules[id.toNat]? = some r ∧
      ((∃ last, p = .done false last ∧ ∀ base under n target,
          c.states.drop r.length.toNat = base :: under → g.nonterminals[r.lhs.toNat]? = some n →
          n.goto? base ≠ some target) ∨
        ∃ c' base under n target, p = .more c' ∧ c.states.drop r.length.toNat = base :: under ∧
          g.nonterminals[r.lhs.toNat]? = some n ∧ n.goto? base = some target ∧
          c'.states = target :: base :: under ∧ c'.lexer = c.lexer ∧
          c'.lookahead = c.lookahead ∧ c.eval.Calm I c'.eval) := by
  cases replaces_of_reduce reduced with
  | @short r rule none =>
    refine ⟨r, fetch_eq_ok_iff.1 rule, .inl ⟨_, rfl, ?_⟩⟩
    rw [states_drop, none]
    nofun
  | @stuck r n base below e runs nowhere =>
    refine ⟨r, fetch_eq_ok_iff.1 runs.rule, .inl ⟨_, rfl, ?_⟩⟩
    rw [states_drop, runs.popped]
    intro base' under n' target found lhs'
    cases (fetch_eq_ok_iff.1 runs.nonterminal).symm.trans lhs'
    cases found
    rw [nowhere]
    nofun
  | @goes r n base below e target runs goto =>
    have ran := calm_runRule patient runs.ran
    have popped := congrArg (List.map Frame.state) runs.popped
    refine ⟨r, fetch_eq_ok_iff.1 runs.rule, .inr ⟨_, base.state, below.map Frame.state, n, target,
      rfl, ?_, fetch_eq_ok_iff.1 runs.nonterminal, goto, rfl, rfl, rfl,
      ran.going, ran.lexical, ran.syntactic⟩⟩
    rw [states_drop, popped]
    rfl

theorem recognizes_reduce (patient : h.Patient I) (top : c.states = s :: below)
    (entry : g.entry? s c.lookahead.id = some a) (kind : a.kind = .reduce) (going : c.eval.Going I)
    {p : Progress (Config σ V)} (reduced : c.reduce g h a.aux = .ok p) :
    (p.Recognizes g ↔ c.Recognizes g) ∧ p.Going I := by
  -- On the terminal ahead, the bare machine reduces too.
  have reduces : ∀ {ids}, Lexer.Quiet g c.lookahead c.lexer ids → g.Accepts (s :: below) ids →
      ∃ base target under r n, g.rules[a.aux.toNat]? = some r ∧
        (s :: below).drop r.length.toNat = base :: under ∧
        g.nonterminals[r.lhs.toNat]? = some n ∧ n.goto? base = some target ∧
        g.Accepts (target :: base :: under) ids := by
    intro ids quiet accepts
    rw [← quiet.ahead_eq] at entry
    cases accepts with
    | shift entry' kind' =>
      cases entry.symm.trans entry'
      cases kind.symm.trans kind'
    | reduce entry' _ rule popped lhs goto rest =>
      cases entry.symm.trans entry'
      exact ⟨_, _, _, _, _, rule, popped, lhs, goto, rest⟩
    | accept entry' kind' =>
      cases entry.symm.trans entry'
      cases kind.symm.trans kind'
  obtain ⟨r, rule, ⟨last, rfl, nowhere⟩ |
    ⟨c', base, under, n, target, rfl, popped, lhs, goto, states, lexer, lookahead, calm⟩⟩ :=
    reduce_eq_ok patient reduced
  · refine ⟨⟨nofun, ?_⟩, trivial⟩
    rintro ⟨_, ids, quiet, accepts⟩
    obtain ⟨base, target, under, r', n, rule', popped, lhs, goto, _⟩ :=
      reduces quiet (top ▸ accepts)
    cases rule.symm.trans rule'
    exact absurd goto (nowhere base under n target (top ▸ popped) lhs)
  · refine ⟨?_, calm.going going⟩
    change c'.Recognizes g ↔ c.Recognizes g
    rw [Recognizes, Recognizes, calm.clean_iff, states, lexer, lookahead, top]
    refine and_congr_right fun _ => exists_congr fun ids => and_congr_right fun quiet => ?_
    constructor
    · intro accepts
      rw [← quiet.ahead_eq] at entry
      exact .reduce entry kind rule (top ▸ popped) lhs goto accepts
    · intro accepts
      obtain ⟨base', target', under', r', n', rule', popped', lhs', goto', rest⟩ :=
        reduces quiet accepts
      cases rule.symm.trans rule'
      cases lhs.symm.trans lhs'
      rw [top, popped'] at popped
      cases popped
      cases goto.symm.trans goto'
      exact rest

section Failing

/-- A recovery counts no syntax errors. -/
structure Skips (I : σ → Prop) (c c' : Config σ V) : Prop where
  going : c.eval.Going I → c'.eval.Going I
  syntactic : c'.eval.stats.syntaxErrors = c.eval.stats.syntaxErrors

theorem Skips.trans {c'' : Config σ V} (first : c.Skips I c') (second : c'.Skips I c'') :
    c.Skips I c'' :=
  ⟨second.going ∘ first.going, second.syntactic.trans first.syntactic⟩

theorem skips_readOn (patient : h.Patient I) (read : c.readOn g h = .ok c') : c.Skips I c' := by
  obtain ⟨⟨t, l, e⟩, pulled, same⟩ := bind_eq_ok_iff.1 read
  cases same
  obtain ⟨_, _, _, going, _, syntactic⟩ := pull_eq_ok patient pulled
  exact ⟨going, syntactic⟩

theorem skips_resume {entry : RecoveryEntry} {frame : Frame} {under : List Frame} {resumed : Bool}
    (tried : c.resume g entry frame under = .ok (resumed, c')) : c.Skips I c' := by
  obtain ⟨n, _, rest⟩ := bind_eq_ok_iff.1 tried
  dsimp only at rest
  split at rest
  · cases rest
    exact ⟨id, rfl⟩
  · cases rest
    exact ⟨id, rfl⟩

theorem skips_recoverFrom (patient : h.Patient I) {n : Nat} {resumed : Bool}
    (tried : recoverFrom g h n c = .ok (resumed, c')) : c.Skips I c' := by
  induction n generalizing c with
  | zero => cases tried
  | succ n ih =>
    unfold recoverFrom at tried
    split at tried
    · cases tried
      exact ⟨id, rfl⟩
    · dsimp only at tried
      split at tried
      · exact skips_resume tried
      · obtain ⟨_, read, rest⟩ := bind_eq_ok_iff.1 tried
        exact (skips_readOn patient read).trans (ih rest)

theorem skips_recover (patient : h.Patient I) {resumed : Bool}
    (tried : c.recover g h = .ok (resumed, c')) : c.Skips I c' := by
  unfold recover at tried
  split at tried
  · cases tried
    exact ⟨id, rfl⟩
  · dsimp only at tried
    split at tried
    · obtain ⟨_, read, rest⟩ := bind_eq_ok_iff.1 tried
      exact (skips_readOn patient read).trans (skips_recoverFrom patient rest)
    · exact skips_recoverFrom patient tried

/-- After a syntax error a parse does not succeed, whatever it recovers. -/
theorem not_recognizes_fail (patient : h.Patient I) (going : c.eval.Going I) {state : ParserState}
    {p : Progress (Config σ V)} (failed : c.fail g h options state = .ok p) :
    ¬p.Recognizes g ∧ p.Going I := by
  have reported : (c.reportSyntax g h state).eval.Going I := going_report patient _ _ _ going
  unfold fail at failed
  dsimp only at failed
  split at failed
  · cases failed
    exact ⟨nofun, trivial⟩
  · obtain ⟨⟨resumed, c'⟩, tried, same⟩ := bind_eq_ok_iff.1 failed
    have skips := skips_recover patient tried
    cases resumed with
    | false =>
      cases same
      exact ⟨nofun, trivial⟩
    | true =>
      cases same
      refine ⟨?_, skips.going reported⟩
      rintro ⟨⟨_, none⟩, _⟩
      rw [skips.syntactic] at none
      exact nomatch none

end Failing

/-- No step changes what is recognized. -/
theorem recognizes_step (patient : h.Patient I) (last : g.EndsLast) (going : c.eval.Going I)
    {p : Progress (Config σ V)} (result : c.step g h options = .ok p) :
    (p.Recognizes g ↔ c.Recognizes g) ∧ p.Going I := by
  unfold step at result
  split at result
  · next empty =>
    cases result
    refine ⟨⟨nofun, ?_⟩, trivial⟩
    rintro ⟨_, ids, _, accepts⟩
    rw [states, empty] at accepts
    nomatch accepts
  · next top below stack =>
    have top_eq : c.states = top.state :: below.map Frame.state := by rw [states, stack]; rfl
    obtain ⟨state, there, rest⟩ := bind_eq_ok_iff.1 result
    have entry : g.entry? top.state c.lookahead.id = state.action? c.lookahead.id := by
      rw [Grammar.entry?, fetch_eq_ok_iff.1 there, Option.bind_some]
    -- Without an entry, or with one for an error, the bare machine is stuck as well.
    have stuck : (∀ a, state.action? c.lookahead.id = some a → a.kind = .error) →
        ¬c.Recognizes g := by
      rintro bad ⟨_, ids, quiet, accepts⟩
      rw [top_eq] at accepts
      obtain ⟨a, found, kind⟩ := accepts.exists_entry
      rw [quiet.ahead_eq, entry] at found
      exact kind (bad a found)
    split at rest
    · next missing =>
      cases rest
      exact ⟨⟨nofun, fun recognized => absurd recognized (stuck (by simp [missing]))⟩, trivial⟩
    · next a found =>
      rw [found] at entry stuck
      split at rest
      · next kind =>
        obtain ⟨c', shifted, same⟩ := bind_eq_ok_iff.1 rest
        cases same
        exact recognizes_shift patient last top_eq entry kind going shifted
      · next kind => exact recognizes_reduce patient top_eq entry kind going rest
      · next kind =>
        cases rest
        have ended : c.lookahead.id = endOfText := last.accept entry kind
        refine ⟨⟨fun ⟨_, clean⟩ => ⟨clean, [], .ended ?_, ?_⟩, fun ⟨clean, _⟩ => ⟨rfl, clean⟩⟩,
          trivial⟩
        · simp [Token.isEnd, ended]
        · rw [top_eq]
          exact .accept (ended ▸ entry) kind
      · next kind =>
        obtain ⟨failed, stays⟩ := not_recognizes_fail patient going rest
        have never := stuck fun _ same => by cases same; exact kind
        exact ⟨iff_of_false failed never, stays⟩

theorem ok_ofConfig (accepted : Bool) (c : Config σ V) :
    (Outcome.ofConfig accepted c).ok = true ↔ (Progress.done accepted c).Recognizes g := by
  obtain ⟨lexer, ⟨graph, queue, control, host, stats⟩, stack, recoveredAt, la⟩ := c
  simp [Outcome.ofConfig, Progress.Recognizes, Clean, and_assoc]

theorem ok_run_iff (patient : h.Patient I) (last : g.EndsLast) (going : c.eval.Going I) {fuel : Nat}
    {outcome : Outcome σ V} (ends : c.run g h options fuel = .ok (some outcome)) :
    outcome.ok = true ↔ c.Recognizes g := by
  induction fuel generalizing c with
  | zero => cases ends
  | succ fuel ih =>
    obtain ⟨p, result, rest⟩ := bind_eq_ok_iff.1 ends
    rw [advance, if_neg (by simp [going.1])] at result
    obtain ⟨same, stays⟩ := recognizes_step patient last going result
    rw [← same]
    cases p with
    | more next => exact ih stays rest
    | done accepted final =>
      cases rest
      exact ok_ofConfig accepted final

end Config

/-- A parse succeeds without an error exactly if the tokens of its text come without a diagnostic
and the bare machine accepts them. -/
theorem ok_parse_iff (patient : h.Patient I) (last : g.EndsLast) {fuel : Nat} {source : Source}
    {host : σ} (inside : I host) {outcome : Outcome σ V}
    (ends : parse g h options fuel source host = .ok (some outcome)) :
    outcome.ok = true ↔ ∃ ids, (Lexer.start source).Starts g ids ∧ g.Accepts [0] ids := by
  obtain ⟨c, begun, run⟩ := bind_eq_ok_iff.1 ends
  obtain ⟨⟨t, l', e⟩, pulled, same⟩ := bind_eq_ok_iff.1 begun
  cases same
  obtain ⟨l, next, same, going, clean, _⟩ := pull_eq_ok patient pulled
  have started : options.control.stopped = false := by
    unfold Options.control
    split <;> rfl
  have fresh : (⟨.empty, [], options.control, host, .zero⟩ : Evaluation σ V).Clean := ⟨rfl, rfl⟩
  rw [Config.ok_run_iff patient last (going ⟨started, inside⟩) run, Config.Recognizes, clean,
    and_iff_right fresh]
  constructor
  · rintro ⟨none, ids, quiet, accepts⟩
    exact ⟨ids, ⟨t, l, next, none, same none ▸ quiet⟩, accepts⟩
  · rintro ⟨ids, ⟨_, _, next', none, quiet⟩, accepts⟩
    cases next.symm.trans next'
    exact ⟨none, ids, (same none).symm ▸ quiet, accepts⟩

end GrammarMachine
