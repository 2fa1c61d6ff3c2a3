import GrammarMachine.Proofs.Evaluation.Effects
import GrammarMachine.Proofs.Lexer.Changes
import GrammarMachine.Proofs.Parse.Lockstep
import Mathlib.Tactic.SplitIfs

/-!
Recoveries make progress. Tokens start further and further on in the text, and the mark that a
recovery leaves never stands behind the lookahead. A second error on a marked token makes the parse
read on, so that every recovery resumes further on than the one before it.
-/

namespace GrammarMachine

open Evaluation

namespace Turn

/-- Where the lookahead starts on which a recovery resumes. -/
def resumedAt? : Turn → Option Nat
  | recover t _ => some t.origin.pos
  | _ => none

def isError : Turn → Bool
  | error _ => true
  | _ => false

/-- A syntax error on a lookahead that starts at `pos`. -/
def failsAt (pos : Nat) : Turn → Bool
  | error o => o.pos == pos
  | _ => false

/-- Neither an error nor a recovery. -/
def isPlain : Turn → Bool
  | error _ => false
  | recover _ _ => false
  | _ => true

variable {turns : List Turn}

theorem filterMap_of_plain (plain : ∀ t ∈ turns, t.isPlain = true) :
    turns.filterMap resumedAt? = [] := by
  refine List.filterMap_eq_nil_iff.2 fun t mem => ?_
  have := plain t mem
  cases t with
  | recover => cases this
  | _ => rfl

theorem countP_isError_of_plain (plain : ∀ t ∈ turns, t.isPlain = true) :
    turns.countP isError = 0 := by
  refine List.countP_eq_zero.2 fun t mem => ?_
  have := plain t mem
  cases t with
  | error => cases this
  | _ => nofun

theorem countP_failsAt_le (turns : List Turn) (pos : Nat) :
    turns.countP (failsAt pos) ≤ turns.countP isError := by
  refine List.countP_mono_left fun t _ fails => ?_
  cases t with
  | error => rfl
  | _ => cases fails

/-- An error with the recovery from it. -/
theorem countP_isError_resumed (o : Origin) (t : Token) (frames : List (UInt32 × Origin))
    (turns : List Turn) :
    ([error o, recover t frames] ++ turns).countP isError = turns.countP isError + 1 := by
  simp [List.countP_cons, isError]

theorem countP_failsAt_resumed (o : Origin) (t : Token) (frames : List (UInt32 × Origin))
    (turns : List Turn) (pos : Nat) :
    ([error o, recover t frames] ++ turns).countP (failsAt pos) =
      turns.countP (failsAt pos) + if o.pos == pos then 1 else 0 := by
  simp [List.countP_cons, failsAt]

theorem filterMap_resumed (o : Origin) (t : Token) (frames : List (UInt32 × Origin))
    (turns : List Turn) :
    ([error o, recover t frames] ++ turns).filterMap resumedAt? =
      t.origin.pos :: turns.filterMap resumedAt? := rfl

end Turn

namespace Evaluation

variable {σ V : Type} {g : Grammar} {h : Host σ V} {e e' e'' : Evaluation σ V}

/-- As many recoveries and syntax errors as before. -/
structure Steady (e e' : Evaluation σ V) : Prop where
  recoveries : e'.stats.recoveries = e.stats.recoveries
  syntaxErrors : e'.stats.syntaxErrors = e.stats.syntaxErrors

theorem Steady.refl (e : Evaluation σ V) : e.Steady e := ⟨rfl, rfl⟩

theorem Steady.trans (first : e.Steady e') (second : e'.Steady e'') : e.Steady e'' :=
  ⟨second.recoveries.trans first.recoveries, second.syntaxErrors.trans first.syntaxErrors⟩

theorem steady_reports (h : Host σ V) (ds : List Diagnostic) (e : Evaluation σ V) :
    e.Steady (ds.foldl (fun eval d => eval.report h .lexical d.origin d.message) e) := by
  induction ds generalizing e with
  | nil => exact .refl e
  | cons d rest ih =>
    have first : e.Steady (e.report h .lexical d.origin d.message) := ⟨rfl, rfl⟩
    exact first.trans (ih _)

theorem steady_shifting (t : Token) (e : Evaluation σ V) : e.Steady (e.shifting t).2 := by
  unfold shifting Config.tokenAttrs
  cases t.text <;> exact ⟨rfl, rfl⟩

theorem Effect.steady (effect : Effect h e e') : e.Steady e' := by
  cases effect with
  | quiet same =>
    obtain ⟨_, _, _, _, _, stats⟩ := same
    exact ⟨by rw [stats], by rw [stats]⟩
  | call => exact ⟨rfl, rfl⟩
  | refusal => exact ⟨rfl, rfl⟩

theorem steady_runRule {rule : UInt32} {lhs : List Nat} {rhs : List (List Nat)}
    (ran : runRule g h rule lhs rhs e = .ok e') : e.Steady e' := by
  have effects := effects_runRule ran
  clear ran
  induction effects with
  | refl => exact .refl e
  | tail _ effect ih => exact ih.trans effect.steady

end Evaluation

namespace Config

variable {σ V : Type} {g : Grammar} {h : Host σ V} {options : Options} {c c' c'' : Config σ V}

/-- The lookahead starts in what has been read, no mark stands behind it, and there are no more
recoveries than tokens: the lookahead is a token to spare while it is not marked. -/
structure Placed (c : Config σ V) : Prop where
  before : c.lookahead.origin.pos ≤ c.lexer.cursor.pos
  inside : c.lookahead.isEnd = false → c.lookahead.origin.pos < c.lexer.cursor.pos
  mark : ∀ pos, c.recoveredAt = some pos → pos ≤ c.lookahead.origin.pos
  tokens : c.eval.stats.recoveries ≤ c.lexer.tokenCount
  spare : c.lookahead.isEnd = false → c.recoveredAt ≠ some c.lookahead.origin.pos →
    c.eval.stats.recoveries < c.lexer.tokenCount

/-- The next token is the lookahead, and is counted. -/
structure Pulls (g : Grammar) (c c' : Config σ V) : Prop where
  delivers : c.lexer.Delivers g c'.lookahead c'.lexer
  counted : c.lexer.tokenCount ≤ c'.lexer.tokenCount ∧
    (c'.lookahead.isEnd = false → c.lexer.tokenCount < c'.lexer.tokenCount)
  recoveredAt : c'.recoveredAt = c.recoveredAt
  steady : c.eval.Steady c'.eval

theorem delivers_of_pull (sound : g.Sound) {l l' : Lexer} (faithful : l.cursor.Faithful)
    {e e' : Evaluation σ V} {t : Token} (pulled : pull g h l e = .ok (t, l', e')) :
    l.Delivers g t l' ∧ (l.tokenCount ≤ l'.tokenCount ∧
      (t.isEnd = false → l.tokenCount < l'.tokenCount)) ∧ e.Steady e' := by
  obtain ⟨_, same, delivers, _⟩ : Yields (pull g h l e) _ := yields_pull sound faithful e
  cases pulled.symm.trans same
  obtain ⟨⟨_, l₁⟩, next, rest⟩ := bind_eq_ok_iff.1 pulled
  cases rest
  have counted := Lexer.lt_tokenCount_next next
  exact ⟨delivers, counted, steady_reports h _ e⟩

theorem pulls_readOn (sound : g.Sound) (faithful : c.lexer.cursor.Faithful)
    (read : c.readOn g h = .ok c') : c.Pulls g c' := by
  obtain ⟨⟨t, l, e⟩, pulled, same⟩ := bind_eq_ok_iff.1 read
  cases same
  obtain ⟨delivers, counted, steady⟩ := delivers_of_pull sound faithful pulled
  exact ⟨delivers, counted, rfl, steady⟩

theorem pulls_shift (sound : g.Sound) (faithful : c.lexer.cursor.Faithful) {target : UInt32}
    (shifted : c.shift g h target = .ok c') : c.Pulls g c' := by
  rw [shift_eq] at shifted
  obtain ⟨⟨t, l, e⟩, pulled, same⟩ := bind_eq_ok_iff.1 shifted
  cases same
  obtain ⟨delivers, counted, steady⟩ := delivers_of_pull sound faithful pulled
  exact ⟨delivers, counted, rfl, (steady_shifting _ _).trans steady⟩

/-- The next token starts behind the lookahead, or where that ends the text. -/
theorem Pulls.place (pulls : c.Pulls g c') (placed : c.Placed) :
    c.lookahead.origin.pos ≤ c'.lookahead.origin.pos ∧
      (c.lookahead.isEnd = false → c.lookahead.origin.pos < c'.lookahead.origin.pos) :=
  ⟨Nat.le_trans placed.before pulls.delivers.behind,
    fun going => Nat.lt_of_lt_of_le (placed.inside going) pulls.delivers.behind⟩

/-- The mark stays behind, so the token that was read is not marked. -/
theorem Pulls.unmarked (pulls : c.Pulls g c') (placed : c.Placed)
    (going : c.lookahead.isEnd = false) : c'.recoveredAt ≠ some c'.lookahead.origin.pos := by
  intro marked
  have behind := placed.mark _ (pulls.recoveredAt.symm.trans marked)
  have further := (pulls.place placed).2 going
  omega

theorem Pulls.placed (pulls : c.Pulls g c') (placed : c.Placed) : c'.Placed where
  before := pulls.delivers.before
  inside := pulls.delivers.inside
  mark pos marked :=
    Nat.le_trans (placed.mark pos (pulls.recoveredAt.symm.trans marked)) (pulls.place placed).1
  tokens := pulls.steady.recoveries ▸ Nat.le_trans placed.tokens pulls.counted.1
  spare going _ :=
    pulls.steady.recoveries ▸ Nat.lt_of_le_of_lt placed.tokens (pulls.counted.2 going)

/-- The end of a recovery. One that resumes does so further on than the last one, and marks the
lookahead. -/
structure Regains (c : Config σ V) (resumed : Bool) (c' : Config σ V) : Prop where
  placed : c'.Placed
  place : c.lookahead.origin.pos ≤ c'.lookahead.origin.pos
  syntaxErrors : c'.eval.stats.syntaxErrors = c.eval.stats.syntaxErrors
  recoveries : c'.eval.stats.recoveries = c.eval.stats.recoveries + resumed.toNat
  later : resumed = true → ∀ pos, c.recoveredAt = some pos → pos < c'.lookahead.origin.pos
  mark : resumed = true → c'.recoveredAt = some c'.lookahead.origin.pos

theorem regains_none (placed : c.Placed) : c.Regains false c :=
  ⟨placed, Nat.le_refl _, rfl, rfl, nofun, nofun⟩

theorem Regains.after {resumed : Bool} (regains : c'.Regains resumed c'') (pulls : c.Pulls g c')
    (placed : c.Placed) : c.Regains resumed c'' where
  placed := regains.placed
  place := Nat.le_trans (pulls.place placed).1 regains.place
  syntaxErrors := regains.syntaxErrors.trans pulls.steady.syntaxErrors
  recoveries := by rw [regains.recoveries, pulls.steady.recoveries]
  later resumes pos marked := regains.later resumes pos (pulls.recoveredAt.trans marked)
  mark := regains.mark

theorem regains_resume (placed : c.Placed) (going : c.lookahead.isEnd = false)
    (unmarked : c.recoveredAt ≠ some c.lookahead.origin.pos) {entry : RecoveryEntry} {frame : Frame}
    {below : List Frame} {resumed : Bool}
    (tried : c.resume g entry frame below = .ok (resumed, c')) : c.Regains resumed c' := by
  obtain ⟨n, _, rest⟩ := bind_eq_ok_iff.1 tried
  dsimp only at rest
  split at rest
  · cases rest
    exact regains_none placed
  · cases rest
    have spare := placed.spare going unmarked
    refine ⟨⟨placed.before, placed.inside, ?_, spare, ?_⟩, Nat.le_refl _, rfl, rfl, ?_,
      fun _ => rfl⟩
    · rintro pos ⟨⟩
      exact Nat.le_refl _
    · exact fun _ other => absurd rfl other
    · intro _ pos marked
      refine Nat.lt_of_le_of_ne (placed.mark pos marked) ?_
      rintro rfl
      exact unmarked marked

theorem regains_recoverFrom (sound : g.Sound) (placed : c.Placed)
    (faithful : c.lexer.cursor.Faithful)
    (unmarked : c.lookahead.isEnd = false → c.recoveredAt ≠ some c.lookahead.origin.pos) {n : Nat}
    {resumed : Bool} (tried : recoverFrom g h n c = .ok (resumed, c')) :
    c.Regains resumed c' := by
  induction n generalizing c with
  | zero => cases tried
  | succ n ih =>
    unfold recoverFrom at tried
    split at tried
    · cases tried
      exact regains_none placed
    · next open_ =>
      have going : c.lookahead.isEnd = false := by
        rw [Bool.not_eq_true, Bool.or_eq_false_iff] at open_
        exact open_.1
      dsimp only at tried
      split at tried
      · exact regains_resume placed going (unmarked going) tried
      · obtain ⟨c₁, read, rest⟩ := bind_eq_ok_iff.1 tried
        have pulls := pulls_readOn sound faithful read
        have unmarked := pulls.unmarked placed going
        have regains := ih (pulls.placed placed) pulls.delivers.leads.faithful (fun _ => unmarked)
          rest
        exact regains.after pulls placed

theorem regains_recover (sound : g.Sound) (placed : c.Placed)
    (faithful : c.lexer.cursor.Faithful) {resumed : Bool}
    (tried : c.recover g h = .ok (resumed, c')) : c.Regains resumed c' := by
  unfold recover at tried
  split at tried
  · cases tried
    exact regains_none placed
  · dsimp only at tried
    split at tried
    · next again =>
      have going : c.lookahead.isEnd = false := by
        rw [Bool.and_eq_true, Bool.not_eq_true'] at again
        exact again.2
      obtain ⟨c₁, first, rest⟩ := bind_eq_ok_iff.1 tried
      have pulls := pulls_readOn sound faithful first
      have unmarked := pulls.unmarked placed going
      have regains := regains_recoverFrom sound (pulls.placed placed)
        pulls.delivers.leads.faithful (fun _ => unmarked) rest
      exact regains.after pulls placed
    · next other =>
      refine regains_recoverFrom sound placed faithful (fun going => ?_) tried
      simpa [going] using other

/-- What a step is with regard to errors: it meets none, or one that ends the parse, or one from
which it recovers. -/
inductive Paced (options : Options) (c : Config σ V) : List Turn → Progress (Config σ V) → Prop
  | plain {turns : List Turn} {p : Progress (Config σ V)} (plain : ∀ t ∈ turns, t.isPlain = true)
      (placed : p.state.Placed) (place : c.lookahead.origin.pos ≤ p.state.lookahead.origin.pos)
      (recoveredAt : p.state.recoveredAt = c.recoveredAt) (steady : c.eval.Steady p.state.eval) :
      Paced options c turns p
  | failed {last : Config σ V} (placed : last.Placed)
      (recoveries : last.eval.stats.recoveries = c.eval.stats.recoveries)
      (syntaxErrors : last.eval.stats.syntaxErrors = c.eval.stats.syntaxErrors + 1) :
      Paced options c [.error c.lookahead.origin] (.done false last)
  | resumed {c' : Config σ V} {frames : List (UInt32 × Origin)}
      (allowed : options.stopOnError = false) (placed : c'.Placed)
      (place : c.lookahead.origin.pos ≤ c'.lookahead.origin.pos)
      (later : ∀ pos, c.recoveredAt = some pos → pos < c'.lookahead.origin.pos)
      (mark : c'.recoveredAt = some c'.lookahead.origin.pos)
      (recoveries : c'.eval.stats.recoveries = c.eval.stats.recoveries + 1)
      (syntaxErrors : c'.eval.stats.syntaxErrors = c.eval.stats.syntaxErrors + 1) :
      Paced options c [.error c.lookahead.origin, .recover c'.lookahead frames] (.more c')

theorem paced_refl (placed : c.Placed) {turns : List Turn} (plain : ∀ t ∈ turns, t.isPlain = true)
    (accepted : Bool) : Paced options c turns (.done accepted c) :=
  .plain plain placed (Nat.le_refl _) rfl (.refl _)

theorem paced_reduce (placed : c.Placed) {turns : List Turn}
    (plain : ∀ t ∈ turns, t.isPlain = true) {id : UInt32} {p : Progress (Config σ V)}
    (reduced : c.reduce g h id = .ok p) : Paced options c turns p := by
  have steady : ∀ {r n base below e}, RunsRule g h id c r n base below e → c.eval.Steady e := by
    intro _ _ _ _ _ runs
    have counted := steady_runRule runs.ran
    exact ⟨counted.recoveries, counted.syntaxErrors⟩
  have kept : ∀ {e} stack, c.eval.Steady e →
      Placed ⟨c.lexer, e, stack, c.recoveredAt, c.lookahead⟩ := fun _ same =>
    ⟨placed.before, placed.inside, placed.mark, same.recoveries ▸ placed.tokens,
      same.recoveries ▸ placed.spare⟩
  cases replaces_of_reduce reduced with
  | short => exact paced_refl placed plain false
  | stuck runs =>
    exact .plain plain (kept _ (steady runs)) (Nat.le_refl _) rfl (steady runs)
  | goes runs =>
    exact .plain plain (kept _ (steady runs)) (Nat.le_refl _) rfl (steady runs)

theorem paced_fail (sound : g.Sound) (placed : c.Placed) (faithful : c.lexer.cursor.Faithful)
    {state : ParserState} {p : Progress (Config σ V)} (failed : c.fail g h options state = .ok p) :
    Paced options c (.error c.lookahead.origin :: recovery p) p := by
  have reported : (c.reportSyntax g h state).Placed :=
    ⟨placed.before, placed.inside, placed.mark, placed.tokens, placed.spare⟩
  unfold fail at failed
  dsimp only at failed
  split at failed
  · cases failed
    exact .failed reported rfl rfl
  · next on =>
    rw [Bool.not_eq_true, Bool.or_eq_false_iff] at on
    obtain ⟨⟨resumed, c'⟩, tried, rest⟩ := bind_eq_ok_iff.1 failed
    obtain ⟨placed', place, syntaxErrors, recoveries, later, mark⟩ :=
      regains_recover sound reported faithful tried
    cases resumed with
    | false =>
      cases rest
      exact .failed placed' recoveries syntaxErrors
    | true =>
      cases rest
      exact .resumed on.1 placed' place (later rfl) (mark rfl) recoveries syntaxErrors

theorem paced_advance (sound : g.Sound) (placed : c.Placed) (faithful : c.lexer.cursor.Faithful)
    {p : Progress (Config σ V)} (result : c.advance g h options = .ok p) :
    Paced options c (c.turns g p) p := by
  unfold advance at result
  unfold turns
  split at result
  · next stopped =>
    cases result
    rw [if_pos stopped]
    exact paced_refl placed (by simp) false
  · next going =>
    rw [if_neg going]
    unfold step at result
    cases stack : c.stack with
    | nil =>
      rw [stack] at result
      cases result
      rw [ entry?, stack]
      exact paced_refl placed (by simp) false
    | cons top below =>
      rw [stack] at result
      obtain ⟨state, found, rest⟩ := bind_eq_ok_iff.1 result
      rw [ entry?_eq stack found]
      cases action : state.action? c.lookahead.id with
      | none =>
        rw [action] at rest
        cases rest
        exact paced_refl placed (by simp) false
      | some a =>
        rw [action] at rest
        obtain ⟨kind, low, high, aux⟩ := a
        cases kind with
        | shift =>
          obtain ⟨c', shifted, same⟩ := bind_eq_ok_iff.1 rest
          cases same
          have pulls := pulls_shift sound faithful shifted
          exact .plain (by simp [Turn.isPlain]) (pulls.placed placed) (pulls.place placed).1
            pulls.recoveredAt pulls.steady
        | reduce => exact paced_reduce placed (by simp [Turn.isPlain]) rest
        | accept =>
          cases rest
          exact paced_refl placed (by simp [Turn.isPlain]) true
        | error => exact paced_fail sound placed faithful rest

theorem Paced.placed {turns : List Turn} {p : Progress (Config σ V)}
    (paced : Paced options c turns p) : p.state.Placed := by
  cases paced with
  | plain _ placed => exact placed
  | failed placed => exact placed
  | resumed _ placed => exact placed

/-- How many more syntax errors there can be on a lookahead that starts at `pos`. -/
def allowance (c : Config σ V) (pos : Nat) : Nat :=
  if pos < c.lookahead.origin.pos then 0
  else if pos = c.lookahead.origin.pos ∧ c.recoveredAt = some pos then 1
  else 2

/-- The turns of a run with regard to errors: recoveries resume further and further on, they and the
errors are counted, and no place has more errors than it is allowed. -/
structure Tallied (c : Config σ V) (turns : List Turn) (last : Config σ V) : Prop where
  placed : last.Placed
  increasing : (turns.filterMap Turn.resumedAt?).Pairwise (· < ·)
  later : ∀ next ∈ turns.filterMap Turn.resumedAt?, ∀ pos, c.recoveredAt = some pos → pos < next
  recoveries : last.eval.stats.recoveries =
    c.eval.stats.recoveries + (turns.filterMap Turn.resumedAt?).length
  syntaxErrors : last.eval.stats.syntaxErrors =
    c.eval.stats.syntaxErrors + turns.countP Turn.isError
  errors : ∀ pos, turns.countP (Turn.failsAt pos) ≤ c.allowance pos

theorem tallied_nil (placed : c.Placed) : c.Tallied [] c :=
  ⟨placed, .nil, nofun, rfl, rfl, fun _ => Nat.zero_le _⟩

theorem allowance_of_plain (place : c.lookahead.origin.pos ≤ c'.lookahead.origin.pos)
    (recoveredAt : c'.recoveredAt = c.recoveredAt) (pos : Nat) :
    c'.allowance pos ≤ c.allowance pos := by
  unfold allowance
  rw [recoveredAt]
  by_cases marked : c.recoveredAt = some pos
  · simp only [marked, and_true]
    split_ifs <;> omega
  · simp only [marked, and_false, if_false]
    split_ifs <;> omega

/-- An error uses up an allowance, and the mark of the recovery another one. -/
theorem allowance_of_resumed (placed : c.Placed)
    (place : c.lookahead.origin.pos ≤ c'.lookahead.origin.pos)
    (later : ∀ pos, c.recoveredAt = some pos → pos < c'.lookahead.origin.pos)
    (mark : c'.recoveredAt = some c'.lookahead.origin.pos) (pos : Nat) :
    (if c.lookahead.origin.pos == pos then 1 else 0) + c'.allowance pos ≤ c.allowance pos := by
  unfold allowance
  rw [mark]
  by_cases marked : c.recoveredAt = some pos
  · have before := later pos marked
    have behind := placed.mark pos marked
    simp only [marked, and_true, Option.some.injEq, beq_iff_eq]
    split_ifs <;> omega
  · simp only [marked, and_false, if_false, Option.some.injEq, beq_iff_eq]
    split_ifs <;> omega

theorem Paced.tallied {turns more : List Turn} {p : Progress (Config σ V)} {last : Config σ V}
    (paced : Paced options c turns p) (placed : c.Placed) (rest : p.state.Tallied more last)
    (ends : ∀ accepted last, p = .done accepted last → more = []) :
    c.Tallied (turns ++ more) last := by
  obtain ⟨placed', increasing, later, recoveries, syntaxErrors, errors⟩ := rest
  cases paced with
  | plain plain _ place recoveredAt steady =>
    have none := Turn.filterMap_of_plain plain
    have zero := Turn.countP_isError_of_plain plain
    refine ⟨placed', ?_, ?_, ?_, ?_, fun pos => ?_⟩
    · rwa [List.filterMap_append, none, List.nil_append]
    · rw [List.filterMap_append, none, List.nil_append, ← recoveredAt]
      exact later
    · rw [List.filterMap_append, none, List.nil_append, recoveries, steady.recoveries]
    · rw [List.countP_append, zero, syntaxErrors, steady.syntaxErrors, Nat.zero_add]
    · have few := Turn.countP_failsAt_le turns pos
      have bound := errors pos
      have kept := allowance_of_plain place recoveredAt pos
      rw [List.countP_append]
      omega
  | failed _ kept one =>
    cases ends false _ rfl
    refine ⟨placed', .nil, nofun, recoveries.trans kept, syntaxErrors.trans one, fun pos => ?_⟩
    rw [List.append_nil, List.countP_singleton]
    simp only [allowance, Turn.failsAt, beq_iff_eq]
    split_ifs <;> omega
  | @resumed c' frames _ _ place first mark one error =>
    refine ⟨placed', ?_, ?_, ?_, ?_, fun pos => ?_⟩
    · refine List.pairwise_cons.2 ⟨fun next mem => ?_, increasing⟩
      exact later next mem _ mark
    · intro next mem pos marked
      rcases List.mem_cons.1 mem with rfl | further
      · exact first pos marked
      · exact Nat.lt_trans (first pos marked) (later next further _ mark)
    · rw [recoveries, Progress.state, one, Turn.filterMap_resumed, List.length_cons]
      omega
    · rw [syntaxErrors, Progress.state, error, Turn.countP_isError_resumed]
      omega
    · have bound := errors pos
      have used := allowance_of_resumed placed place first mark pos
      rw [Progress.state] at bound
      rw [Turn.countP_failsAt_resumed]
      omega

/-- Errors and recoveries come in pairs, but for an error that ends the parse. -/
structure Balanced (options : Options) (turns : List Turn) (verdict : Option Bool) : Prop where
  errors : turns.countP Turn.isError ≤ (turns.filterMap Turn.resumedAt?).length + 1
  paired : verdict ≠ some false →
    turns.countP Turn.isError = (turns.filterMap Turn.resumedAt?).length
  stop : options.stopOnError = true → turns.filterMap Turn.resumedAt? = []

theorem balanced_nil (verdict : Option Bool) : Balanced options [] verdict :=
  ⟨Nat.zero_le _, fun _ => rfl, fun _ => rfl⟩

theorem Paced.balanced {turns more : List Turn} {verdict : Option Bool}
    {p : Progress (Config σ V)} (paced : Paced options c turns p)
    (rest : Balanced options more verdict)
    (ends : ∀ accepted last, p = .done accepted last → more = [] ∧ verdict = some accepted) :
    Balanced options (turns ++ more) verdict := by
  cases paced with
  | plain plain =>
    have none := Turn.filterMap_of_plain plain
    have zero := Turn.countP_isError_of_plain plain
    constructor
    · rw [List.filterMap_append, List.countP_append, none, zero, List.nil_append, Nat.zero_add]
      exact rest.errors
    · rw [List.filterMap_append, List.countP_append, none, zero, List.nil_append, Nat.zero_add]
      exact rest.paired
    · rw [List.filterMap_append, none, List.nil_append]
      exact rest.stop
  | failed =>
    obtain ⟨rfl, rfl⟩ := ends false _ rfl
    exact ⟨Nat.le_refl _, fun other => absurd rfl other, fun _ => rfl⟩
  | resumed allowed =>
    refine ⟨?_, fun other => ?_, fun stop => ?_⟩
    · rw [Turn.countP_isError_resumed, Turn.filterMap_resumed]
      exact Nat.succ_le_succ rest.errors
    · rw [Turn.countP_isError_resumed, Turn.filterMap_resumed, rest.paired other, List.length_cons]
    · cases allowed.symm.trans stop

/-- The turns of a run, with regard to errors. -/
theorem run_paced (sound : g.Sound) (healthy : c.Sound g) (placed : c.Placed) (fuel : Nat)
    {result : Option (Outcome σ V)} (ran : c.run g h options fuel = .ok result) :
    c.Tallied (c.trace g h options fuel) (c.last g h options fuel) ∧
      Balanced options (c.trace g h options fuel) (result.map Outcome.accepted) := by
  induction fuel generalizing c with
  | zero => exact ⟨tallied_nil placed, balanced_nil _⟩
  | succ fuel ih =>
    obtain ⟨p, stepped, follows⟩ : Yields (c.advance g h options) _ := yields_advance sound healthy
    have paced := paced_advance sound placed healthy.faithful stepped
    unfold run at ran
    unfold trace last
    rw [stepped] at ran ⊢
    cases p with
    | more next =>
      obtain ⟨tallied, balanced⟩ := ih follows.sound paced.placed ran
      exact ⟨paced.tallied placed tallied (by simp), paced.balanced balanced (by simp)⟩
    | done accepted last =>
      cases ran
      have tallied := paced.tallied placed (tallied_nil paced.placed) fun _ _ _ => rfl
      have balanced : Balanced options _ (some accepted) :=
        paced.balanced (balanced_nil _) (by simp)
      rw [List.append_nil] at tallied balanced
      exact ⟨tallied, balanced⟩

/-- The first token is in its place, and counted. -/
theorem placed_start (sound : g.Sound) {source : Source} {control : Control} {host : σ}
    (begun : Config.start g h source control host = .ok c) :
    c.Placed ∧ c.recoveredAt = none ∧ c.eval.stats.recoveries = 0 ∧
      c.eval.stats.syntaxErrors = 0 := by
  obtain ⟨⟨t, l, e⟩, pulled, same⟩ := bind_eq_ok_iff.1 begun
  cases same
  obtain ⟨delivers, counted, steady⟩ :=
    delivers_of_pull sound (Cursor.faithful_start source) pulled
  have none : e.stats.recoveries = 0 := steady.recoveries
  refine ⟨⟨delivers.before, delivers.inside, nofun, ?_, fun going _ => ?_⟩, rfl, none,
    steady.syntaxErrors⟩
  · exact none ▸ Nat.zero_le _
  · exact none ▸ counted.2 going

end Config

/-- Recovery makes progress. After any number of steps, the places where recoveries resumed are in
strictly increasing order, there are no more recoveries than tokens, and no place had more than two
syntax errors. Errors and recoveries come in pairs, but for an error that ends a parse which is not
accepted; a parse that stops on errors has at most one, and no recovery. -/
theorem recovery_makes_progress {σ V : Type} {g : Grammar} (valid : g.check = .ok ())
    (h : Host σ V) (control : Control) (options : Options) (fuel : Nat) (source : Source)
    (host : σ) :
    ∃ trace last,
      parseTrace control g h options fuel source host = .ok trace ∧
      parseLast control g h options fuel source host = .ok last ∧
      (trace.filterMap Turn.resumedAt?).Pairwise (· < ·) ∧
      last.eval.stats.recoveries = (trace.filterMap Turn.resumedAt?).length ∧
      last.eval.stats.syntaxErrors = trace.countP Turn.isError ∧
      last.eval.stats.recoveries ≤ last.lexer.tokenCount ∧
      (∀ pos, trace.countP (Turn.failsAt pos) ≤ 2) ∧
      last.eval.stats.syntaxErrors ≤ last.eval.stats.recoveries + 1 ∧
      (parseUnder control g h options fuel source host = .ok none →
        last.eval.stats.syntaxErrors = last.eval.stats.recoveries) ∧
      (∀ outcome, parseUnder control g h options fuel source host = .ok (some outcome) →
        outcome.stats = { last.eval.stats with tokens := last.lexer.tokenCount } ∧
        (outcome.accepted = true → outcome.stats.syntaxErrors = outcome.stats.recoveries)) ∧
      (options.stopOnError = true →
        last.eval.stats.recoveries = 0 ∧ last.eval.stats.syntaxErrors ≤ 1) := by
  have sound := Grammar.sound_of_check valid
  obtain ⟨c, begun, healthy, _⟩ := Config.yields_start sound h source control host
  obtain ⟨placed, unmarked, none, clean⟩ := Config.placed_start sound begun
  obtain ⟨result, ran, _⟩ : Yields (c.run g h options fuel) _ :=
    Config.yields_run sound healthy fuel
  obtain ⟨tallied, balanced⟩ := Config.run_paced sound healthy placed fuel ran
  have recoveries := tallied.recoveries
  have syntaxErrors := tallied.syntaxErrors
  rw [none, Nat.zero_add] at recoveries
  rw [clean, Nat.zero_add] at syntaxErrors
  have whole : parseUnder control g h options fuel source host = .ok result := by
    rw [parseUnder, begun]
    exact ran
  refine ⟨c.trace g h options fuel, c.last g h options fuel, by rw [parseTrace, begun]; rfl,
    by rw [parseLast, begun]; rfl, tallied.increasing, recoveries, syntaxErrors,
    tallied.placed.tokens, fun pos => ?_, ?_, fun open_ => ?_, fun outcome ended => ?_,
    fun stop => ?_⟩
  · refine Nat.le_trans (tallied.errors pos) ?_
    unfold Config.allowance
    split_ifs <;> omega
  · rw [syntaxErrors, recoveries]
    exact balanced.errors
  · cases whole.symm.trans open_
    rw [syntaxErrors, recoveries]
    exact balanced.paired (by simp)
  · cases whole.symm.trans ended
    obtain ⟨accepted, rfl⟩ := Config.outcome_of_run ran
    refine ⟨rfl, fun yes => ?_⟩
    have yes : accepted = true := yes
    have paired := balanced.paired (by simp [Outcome.ofConfig, yes])
    rw [← syntaxErrors, ← recoveries] at paired
    exact paired
  · rw [syntaxErrors, recoveries]
    have errors := balanced.errors
    rw [balanced.stop stop] at errors ⊢
    exact ⟨rfl, errors⟩

section Example

open Samples.Calculator

/-- Two products without a first factor, and a parenthesis that was never opened: two recoveries on
the next sign each, and an error that ends the parse. -/
theorem calculator_recovers_twice : (grammar .hard).check = .ok () ∧ ∃ trace outcome,
    parseTrace .initial (grammar .hard) host .default 40 (.ofText "1+**2)" false)
      (Machine.start false) = .ok trace ∧
    trace.filterMap Turn.resumedAt? = [2, 3] ∧
    parseUnder .initial (grammar .hard) host .default 40 (.ofText "1+**2)" false)
      (Machine.start false) = .ok (some outcome) ∧
    outcome.stats.recoveries = 2 ∧ outcome.stats.syntaxErrors = 3 ∧ outcome.stats.tokens = 6 := by
  have valid := Samples.Calculator.check_grammar .hard
  have resumed : ((parseTrace .initial (grammar .hard) host .default 40 (.ofText "1+**2)" false)
      (Machine.start false)).toOption.map fun trace =>
        (trace.filterMap Turn.resumedAt?, trace.countP Turn.isError)) = some ([2, 3], 3) := by
    decide +kernel
  have ends : (((parseUnder .initial (grammar .hard) host .default 40 (.ofText "1+**2)" false)
      (Machine.start false)).toOption.bind id).map fun outcome => outcome.stats.tokens) =
        some 6 := by
    decide +kernel
  obtain ⟨outcome, found, tokens⟩ := Option.map_eq_some_iff.1 ends
  obtain ⟨_, whole, rfl⟩ := Option.bind_eq_some_iff.1 found
  have ended := eq_ok_of_toOption whole
  obtain ⟨trace, last, traced, _, _, recoveries, syntaxErrors, _, _, _, _, ending, _⟩ :=
    recovery_makes_progress valid host .initial .default 40 (.ofText "1+**2)" false)
      (Machine.start false)
  rw [traced] at resumed
  obtain ⟨places, errors⟩ := Prod.mk.inj (Option.some.inj resumed)
  obtain ⟨stats, _⟩ := ending outcome ended
  refine ⟨valid, trace, outcome, traced, places, ended, ?_, ?_, tokens⟩
  · rw [stats]
    exact recoveries.trans (congrArg List.length places)
  · rw [stats]
    exact syntaxErrors.trans errors

end Example

end GrammarMachine
