import GrammarMachine.Proofs.Parse.Recognition
import GrammarMachine.Proofs.Parse.Recoveries

/-!
Steps and recoveries read backwards. `Acts` says once what a step can be, by the entry of the tables
that it follows; a recovery reads on any number of times and resumes at most once, so that it keeps
whatever both of these keep.
-/

namespace GrammarMachine.Config

open Evaluation

variable {σ V : Type} {g : Grammar} {h : Host σ V} {options : Options} {c c' : Config σ V}

/-- The cases of a step. -/
inductive Acts (g : Grammar) (h : Host σ V) (options : Options) (c : Config σ V) :
    Progress (Config σ V) → Prop
  /-- The host has asked to stop. -/
  | stopped (on : c.eval.control.stopped = true) : Acts g h options c (.done false c)
  /-- There is no state on top, or one without entries. -/
  | lost (none : c.entry? g = none) : Acts g h options c (.done false c)
  | shift {a : Action} {c' : Config σ V} (entry : c.entry? g = some a) (kind : a.kind = .shift)
      (shifted : c.shift g h a.aux = .ok c') : Acts g h options c (.more c')
  | reduce {a : Action} {p : Progress (Config σ V)} (entry : c.entry? g = some a)
      (kind : a.kind = .reduce) (reduced : c.reduce g h a.aux = .ok p) : Acts g h options c p
  | accept {a : Action} (entry : c.entry? g = some a) (kind : a.kind = .accept) :
      Acts g h options c (.done true c)
  | error {a : Action} {state : ParserState} {p : Progress (Config σ V)}
      (entry : c.entry? g = some a) (kind : a.kind = .error)
      (failed : c.fail g h options state = .ok p) : Acts g h options c p

theorem acts_of_advance {p : Progress (Config σ V)} (result : c.advance g h options = .ok p) :
    c.Acts g h options p := by
  unfold advance step at result
  split at result
  · next on =>
    cases result
    exact .stopped on
  split at result
  · next stack =>
    cases result
    exact .lost (by rw [ entry?, stack]; rfl)
  next top below stack =>
  obtain ⟨state, found, rest⟩ := bind_eq_ok_iff.1 result
  have entry := entry?_eq stack found
  split at rest
  · next none =>
    cases rest
    exact .lost (entry.trans none)
  next a action =>
  rw [action] at entry
  split at rest
  · next kind =>
    obtain ⟨c', shifted, same⟩ := bind_eq_ok_iff.1 rest
    cases same
    exact .shift entry kind shifted
  · next kind => exact .reduce entry kind rest
  · next kind =>
    cases rest
    exact .accept entry kind
  · next kind => exact .error entry kind rest

/-- The entry is one of the state on top. -/
theorem exists_top_of_entry? {a : Action} (entry : c.entry? g = some a) :
    ∃ top below, c.stack = top :: below ∧ g.entry? top.state c.lookahead.id = some a := by
  obtain ⟨top, head, found⟩ := Option.bind_eq_some_iff.1 entry
  obtain ⟨below, stack⟩ := List.head?_eq_some_iff.1 head
  exact ⟨top, below, stack, found⟩

/-- In a sound state there is always an entry. -/
theorem exists_entry? (sound : g.Sound) (healthy : c.Sound g) (standing : c.stack ≠ []) :
    ∃ a, c.entry? g = some a := by
  obtain ⟨top, below, stack⟩ := List.exists_cons_of_ne_nil standing
  have inside := healthy.standing.states top (stack ▸ List.mem_cons_self)
  obtain ⟨state, found, there⟩ : Yields (g.state top.state) fun state =>
      g.states[top.state.toNat]? = some state := yields_fetch inside
  rw [ entry?_eq stack found]
  obtain ⟨last, back, _⟩ := sound.catchAll state (Array.mem_of_getElem? there)
  unfold ParserState.action?
  split
  · split
    · exact ⟨_, rfl⟩
    · exact ⟨last, back⟩
  · exact ⟨last, back⟩

/-- A shift pushes the token with its attributes, and reads on. -/
theorem of_shift {target : UInt32} (shifted : c.shift g h target = .ok c') :
    pull g h c.lexer (c.eval.shifting c.lookahead).2 = .ok (c'.lookahead, c'.lexer, c'.eval) ∧
      c'.stack = ⟨target, (c.eval.shifting c.lookahead).1, c.lookahead.origin⟩ :: c.stack := by
  rw [shift_eq] at shifted
  obtain ⟨_, pulled, rest⟩ := bind_eq_ok_iff.1 shifted
  cases rest
  exact ⟨pulled, rfl⟩

/-- A recovery that resumes pushes a nonterminal; one that does not leaves all as it is. -/
theorem of_resume {entry : RecoveryEntry} {frame : Frame} {below : List Frame} {resumed : Bool}
    (tried : c.resume g entry frame below = .ok (resumed, c')) :
    c' = c ∨ ∃ n target, g.nonterminals[entry.nonterminal.toNat]? = some n ∧
      n.goto? frame.state = some target ∧ c'.eval = (c.eval.resuming n).2 ∧
      c'.stack = ⟨target, (c.eval.resuming n).1, c.lookahead.origin⟩ :: frame :: below ∧
      c'.lexer = c.lexer ∧ c'.lookahead = c.lookahead := by
  rw [resume_eq] at tried
  obtain ⟨n, nonterminal, rest⟩ := bind_eq_ok_iff.1 tried
  split at rest
  · cases rest
    exact .inl rfl
  · next target goto =>
    cases rest
    exact .inr ⟨n, target, fetch_eq_ok_iff.1 nonterminal, goto, rfl, rfl, rfl, rfl⟩

section Recovering

/-- What reading on and resuming keep. -/
structure Kept (g : Grammar) (h : Host σ V) (P : Config σ V → Prop) : Prop where
  readOn : ∀ {c c'}, P c → c.readOn g h = .ok c' → P c'
  resume : ∀ {c : Config σ V} {r entry frame below resumed c'}, P c →
    c.lookahead.isEnd = false → g.recovery? c.lookahead.id = some r →
    resumption? r.entries c.stack = some (entry, frame, below) →
    c.resume g entry frame below = .ok (resumed, c') → P c'

variable {P : Config σ V → Prop} {resumed : Bool}

theorem Kept.recoverFrom (kept : Kept g h P) {n : Nat} (before : P c)
    (tried : recoverFrom g h n c = .ok (resumed, c')) : P c' := by
  induction n generalizing c with
  | zero => cases tried
  | succ n ih =>
    unfold Config.recoverFrom at tried
    split at tried
    · cases tried
      exact before
    · next open_ =>
      have going : c.lookahead.isEnd = false := by
        rw [Bool.not_eq_true, Bool.or_eq_false_iff] at open_
        exact open_.1
      dsimp only at tried
      split at tried
      · next found =>
        obtain ⟨r, listed, resumes⟩ := Option.bind_eq_some_iff.1 found
        exact kept.resume before going listed resumes tried
      · obtain ⟨_, read, rest⟩ := bind_eq_ok_iff.1 tried
        exact ih (kept.readOn before read) rest

theorem Kept.recover (kept : Kept g h P) (before : P c)
    (tried : c.recover g h = .ok (resumed, c')) : P c' := by
  unfold Config.recover at tried
  split at tried
  · cases tried
    exact before
  · dsimp only at tried
    split at tried
    · obtain ⟨_, read, rest⟩ := bind_eq_ok_iff.1 tried
      exact kept.recoverFrom (kept.readOn before read) rest
    · exact kept.recoverFrom before tried

/-- An error is reported, and perhaps recovered from. -/
theorem Kept.fail (kept : Kept g h P) {state : ParserState} {p : Progress (Config σ V)}
    (before : P (c.reportSyntax g h state)) (failed : c.fail g h options state = .ok p) :
    P p.state := by
  unfold Config.fail at failed
  dsimp only at failed
  split at failed
  · cases failed
    exact before
  · obtain ⟨⟨resumed, c'⟩, tried, same⟩ := bind_eq_ok_iff.1 failed
    have after := kept.recover before tried
    cases resumed <;> cases same <;> exact after

/-- An error that is met is counted for good. -/
theorem syntaxErrors_fail {state : ParserState} {p : Progress (Config σ V)}
    (failed : c.fail g h options state = .ok p) : 1 ≤ p.state.eval.stats.syntaxErrors := by
  have kept : Kept g h fun c => 1 ≤ c.eval.stats.syntaxErrors := {
    readOn := fun before read => (skips_readOn h.patient_nowhere read).syntactic ▸ before
    resume := fun before _ _ _ tried =>
      (skips_resume (I := fun _ => False) tried).syntactic ▸ before }
  exact kept.fail (Nat.succ_pos _) failed

end Recovering

end GrammarMachine.Config
