import GrammarMachine.Proofs.Evaluation.Calm
import GrammarMachine.Proofs.Lexer.Reports
import GrammarMachine.Proofs.Parse.Calculator
import GrammarMachine.Proofs.Parse.Lockstep

/-!
Where a recovery resumes. It goes through the tokens ahead until one has an entry for a state on the
stack, and through the stack from its top until one frame has such an entry: so it resumes on the
earliest token that helps at all, in the topmost frame that it helps, and leaves everything as it
was if there is no such token, or nowhere to go from there.
-/

namespace GrammarMachine

open Evaluation

/-- The recovery on this terminal has an entry for a state on the stack. -/
def Grammar.Helps (g : Grammar) (terminal : UInt32) (stack : List Frame) : Prop :=
  ∃ r, g.recovery? terminal = some r ∧ ∃ f ∈ stack, ∃ entry ∈ r.entries, entry.state = f.state

namespace Config

variable {σ V : Type} {g : Grammar} {h : Host σ V} {I : σ → Prop} {c c' : Config σ V}
  {ts : List Token}

/-- The tokens on which a recovery may resume: the lookahead, unless the last recovery resumed on
it, and those behind it. At the end of text there are none. -/
def candidates (la : Token) (mark : Option Nat) (later : List Token) : List Token :=
  if la.isEnd then [] else if mark = some la.origin.pos then later else la :: later

/-- What a recovery chooses among tokens and frames. -/
structure Picks (g : Grammar) (tokens : List Token) (stack : List Frame) (token : Token)
    (entry : RecoveryEntry) (frame : Frame) (below : List Frame) : Prop where
  /-- The token is the first one that helps. -/
  earliest : ∃ passed rest, tokens = passed ++ token :: rest ∧ ∀ t ∈ passed, ¬g.Helps t.id stack
  /-- The frame is the topmost one that it helps, and the entry the first one for that frame. -/
  topmost : ∃ r above, g.recovery? token.id = some r ∧ stack = above ++ frame :: below ∧
    (∀ f ∈ above, ∀ entry ∈ r.entries, entry.state ≠ f.state) ∧
    r.entries.find? (fun entry => entry.state == frame.state) = some entry

/-- How a recovery ends that may resume on these tokens. -/
inductive Rescues (g : Grammar) (tokens : List Token) (c : Config σ V) : Bool → Config σ V → Prop
  | resumed {c' : Config σ V} {token : Token} {entry : RecoveryEntry} {frame : Frame}
      {below : List Frame} {n : Nonterminal} {target : UInt32}
      (picks : Picks g tokens c.stack token entry frame below)
      (nonterminal : g.nonterminals[entry.nonterminal.toNat]? = some n)
      (goto : n.goto? frame.state = some target) (lookahead : c'.lookahead = token)
      (stack : c'.stack = ⟨target, List.range' c.eval.graph.size n.attributeCount, token.origin⟩ ::
        frame :: below)
      (graph : c'.eval.graph.nodes =
        c.eval.graph.nodes ++ Array.replicate n.attributeCount .null) : Rescues g tokens c true c'
  /-- The nonterminal has nowhere to go. -/
  | astray {c' : Config σ V} {token : Token} {entry : RecoveryEntry} {frame : Frame}
      {below : List Frame} {n : Nonterminal}
      (picks : Picks g tokens c.stack token entry frame below)
      (nonterminal : g.nonterminals[entry.nonterminal.toNat]? = some n)
      (goto : n.goto? frame.state = none) (stack : c'.stack = c.stack)
      (graph : c'.eval.graph = c.eval.graph) : Rescues g tokens c false c'
  | helpless {c' : Config σ V} (none : ∀ t ∈ tokens, ¬g.Helps t.id c.stack)
      (stack : c'.stack = c.stack) (graph : c'.eval.graph = c.eval.graph) :
      Rescues g tokens c false c'

section Searching

variable {entries : List RecoveryEntry} {entry : RecoveryEntry} {frame : Frame}
  {below stack : List Frame}

theorem find?_entry_eq_none {state : UInt32} :
    entries.find? (fun entry => entry.state == state) = none ↔
      ∀ entry ∈ entries, entry.state ≠ state := by
  simp [List.find?_eq_none]

theorem resumption?_eq_none (none : resumption? entries stack = none) :
    ∀ f ∈ stack, ∀ entry ∈ entries, entry.state ≠ f.state := by
  induction stack with
  | nil => nofun
  | cons top rest ih =>
    unfold resumption? at none
    split at none
    · cases none
    · next missing =>
      exact List.forall_mem_cons.2 ⟨find?_entry_eq_none.1 missing, ih none⟩

/-- The search from the top finds the topmost frame. -/
theorem topmost_of_resumption? (found : resumption? entries stack = some (entry, frame, below)) :
    ∃ above, stack = above ++ frame :: below ∧
      (∀ f ∈ above, ∀ entry ∈ entries, entry.state ≠ f.state) ∧
      entries.find? (fun entry => entry.state == frame.state) = some entry := by
  induction stack with
  | nil => cases found
  | cons top rest ih =>
    unfold resumption? at found
    split at found
    · next first =>
      cases found
      exact ⟨[], rfl, nofun, first⟩
    · next missing =>
      obtain ⟨above, rfl, others, first⟩ := ih found
      exact ⟨top :: above, rfl,
        List.forall_mem_cons.2 ⟨find?_entry_eq_none.1 missing, others⟩, first⟩

end Searching

/-- A token that helps nobody is passed over. -/
theorem Rescues.passing {resumed : Bool} {t : Token} (rescues : Rescues g ts c resumed c')
    (useless : ¬g.Helps t.id c.stack) : Rescues g (t :: ts) c resumed c' := by
  have picking : ∀ {token entry frame below}, Picks g ts c.stack token entry frame below →
      Picks g (t :: ts) c.stack token entry frame below := by
    rintro token entry frame below ⟨⟨passed, rest, rfl, none⟩, topmost⟩
    exact ⟨⟨t :: passed, rest, rfl, List.forall_mem_cons.2 ⟨useless, none⟩⟩, topmost⟩
  cases rescues with
  | resumed picks nonterminal goto lookahead stack graph =>
    exact .resumed (picking picks) nonterminal goto lookahead stack graph
  | astray picks nonterminal goto stack graph =>
    exact .astray (picking picks) nonterminal goto stack graph
  | helpless none stack graph =>
    exact .helpless (List.forall_mem_cons.2 ⟨useless, none⟩) stack graph

/-- A recovery chooses by the stack and adds to the graph, whatever else has changed before. -/
theorem Rescues.congr {resumed : Bool} {c'' : Config σ V} (rescues : Rescues g ts c' resumed c'')
    (stack : c'.stack = c.stack) (graph : c'.eval.graph = c.eval.graph) :
    Rescues g ts c resumed c'' := by
  cases rescues with
  | resumed picks nonterminal goto lookahead stack' graph' =>
    rw [stack] at picks
    rw [graph] at stack' graph'
    exact .resumed picks nonterminal goto lookahead stack' graph'
  | astray picks nonterminal goto stack' graph' =>
    rw [stack] at picks
    exact .astray picks nonterminal goto (stack'.trans stack) (graph'.trans graph)
  | helpless none stack' graph' =>
    rw [stack] at none
    exact .helpless none (stack'.trans stack) (graph'.trans graph)

/-- In front of these tokens, under a parse that goes on. -/
structure Facing (g : Grammar) (I : σ → Prop) (ts : List Token) (c : Config σ V) : Prop where
  faithful : c.lexer.cursor.Faithful
  going : c.eval.Going I
  upcoming : Lexer.Upcoming g c.lookahead c.lexer ts

/-- Reading on leads to the tokens behind the lookahead, whatever is reported on the way. -/
theorem Facing.yields_readOn (facing : c.Facing g I (c.lookahead :: ts)) (sound : g.Sound)
    (patient : h.Patient I) :
    Yields (c.readOn g h) fun c' =>
      c'.Facing g I ts ∧ c'.stack = c.stack ∧ c'.eval.graph = c.eval.graph := by
  obtain ⟨faithful, going, upcoming⟩ := facing
  cases upcoming with
  | @more _ t' _ l' _ _ delivers rest =>
    obtain ⟨_, same, leads⟩ := Lexer.yields_next sound faithful
    cases delivers.symm.trans same
    have faithful' := leads.leads.faithful
    obtain ⟨still, _⟩ := reports_count patient l'.diagnostics.toList c.eval
    have undisturbed := undisturbed_reports h l'.diagnostics.toList c.eval
    have pulled : pull g h c.lexer c.eval = .ok (t', l'.takeDiagnostics.2,
        l'.diagnostics.toList.foldl
          (fun eval d => eval.report h .lexical d.origin d.message) c.eval) := by
      rw [pull, delivers]
      rfl
    have later : Lexer.Upcoming g t' l'.takeDiagnostics.2 _ :=
      rest.akin ⟨rfl, rfl⟩ sound faithful'
    exact .bind_ok pulled (.pure ⟨⟨faithful', still going, later⟩, rfl, undisturbed.graph⟩)

theorem rescues_resume (sound : g.Sound) {r : Recovery} {entry : RecoveryEntry} {frame : Frame}
    {below : List Frame} (listed : g.recovery? c.lookahead.id = some r)
    (found : resumption? r.entries c.stack = some (entry, frame, below)) :
    Yields (c.resume g entry frame below) fun (resumed, c') =>
      Rescues g (c.lookahead :: ts) c resumed c' := by
  obtain ⟨above, split, others, first⟩ := topmost_of_resumption? found
  have picks : Picks g (c.lookahead :: ts) c.stack c.lookahead entry frame below :=
    ⟨⟨[], ts, rfl, nofun⟩, r, above, listed, split, others, first⟩
  have inside := sound.recovery r (List.mem_of_find?_eq_some listed) entry
    (List.mem_of_find?_eq_some first)
  obtain ⟨n, nonterminal, there⟩ : Yields (g.nonterminal entry.nonterminal) fun n =>
    g.nonterminals[entry.nonterminal.toNat]? = some n := yields_fetch inside
  rw [resume_eq]
  refine .bind_ok nonterminal ?_
  cases goto : n.goto? frame.state with
  | none => exact .pure (.astray picks there goto rfl rfl)
  | some target =>
    have added := Graph.allocMany_eq c.eval.graph .null n.attributeCount
    refine .pure (.resumed picks there goto rfl ?_ ?_)
    · exact congrArg (⟨target, ·, c.lookahead.origin⟩ :: frame :: below) (congrArg Prod.fst added)
    · exact congrArg Graph.nodes (congrArg Prod.snd added)

theorem Facing.yields_recoverFrom (facing : c.Facing g I ts) (sound : g.Sound)
    (patient : h.Patient I) {n : Nat} (enough : ts.length < n) :
    Yields (recoverFrom g h n c) fun (resumed, c') => Rescues g ts c resumed c' := by
  induction n generalizing c ts with
  | zero => omega
  | succ n ih =>
    unfold recoverFrom
    rw [facing.going.1, Bool.or_false]
    have whole := facing
    obtain ⟨_, _, upcoming⟩ := facing
    cases upcoming with
    | ended ended =>
      rw [if_pos ended]
      exact .pure (.helpless (fun _ mem => absurd mem List.not_mem_nil) rfl rfl)
    | @more _ _ _ _ rest on =>
      rw [if_neg (by simp [on])]
      dsimp only
      split
      · next entry frame below found =>
        obtain ⟨r, listed, resumes⟩ := Option.bind_eq_some_iff.1 found
        exact rescues_resume sound listed resumes
      · next found =>
        have useless : ¬g.Helps c.lookahead.id c.stack := by
          rintro ⟨r, listed, f, mem, entry, among, same⟩
          rw [listed, Option.bind_some] at found
          exact resumption?_eq_none found f mem entry among same
        refine (whole.yields_readOn sound patient).bind fun c' ⟨facing, stack, graph⟩ => ?_
        have fewer : rest.length < n := Nat.lt_of_succ_lt_succ enough
        exact (ih facing fewer).mono fun _ rescues => (rescues.congr stack graph).passing useless

/-- A recovery in front of the end of text, or on a lookahead with these tokens behind it. -/
theorem yields_recover_picks (sound : g.Sound) (patient : h.Patient I)
    (faithful : c.lexer.cursor.Faithful) (going : c.eval.Going I) {n : Nat} {last : Lexer}
    (tokens : c.lexer.tokensFrom g n = .ok (ts, last)) :
    Yields (c.recover g h) fun (resumed, c') =>
      Rescues g (candidates c.lookahead c.recoveredAt ts) c resumed c' := by
  unfold recover candidates
  cases recoveries : g.recoveries with
  | nil =>
    have none : ∀ terminal, ¬g.Helps terminal c.stack := by
      rintro terminal ⟨r, listed, _⟩
      rw [Grammar.recovery?, recoveries] at listed
      cases listed
    rw [if_pos (by simp [Grammar.hasRecovery, recoveries])]
    exact .pure (.helpless (fun t _ => none t.id) rfl rfl)
  | cons first others =>
    rw [if_neg (by simp [Grammar.hasRecovery, recoveries])]
    cases on : c.lookahead.isEnd with
    | true =>
      simp only [Bool.not_true, Bool.and_false, Bool.false_eq_true, if_false, if_true]
      have facing : c.Facing g I [] := ⟨faithful, going, .ended on⟩
      exact facing.yields_recoverFrom sound patient (Nat.succ_pos _)
    | false =>
      have facing : c.Facing g I (c.lookahead :: ts) :=
        ⟨faithful, going, Lexer.upcoming_of_tokensFrom on tokens⟩
      simp only [Bool.not_false, Bool.and_true, beq_iff_eq, Bool.false_eq_true, if_false]
      split
      · refine (facing.yields_readOn sound patient).bind fun c' ⟨facing, stack, graph⟩ => ?_
        have enough := facing.upcoming.length_le sound facing.faithful
        exact (facing.yields_recoverFrom sound patient (Nat.lt_succ_of_le enough)).mono
          fun _ rescues => rescues.congr stack graph
      · have enough := facing.upcoming.length_le sound faithful
        exact facing.yields_recoverFrom sound patient (Nat.lt_succ_of_le enough)

end Config

/-- Panic-mode recovery resumes on the earliest token and in the topmost frame. Wherever a parse has
come to in its text, with anything on the stack and any lookahead, under a host that does not stop
it: the choice is made among the tokens up to the end of text, without a lookahead that the last
recovery resumed on; and where there is no choice, or the nonterminal has nowhere to go, the stack
and the graph are left as they were. -/
theorem recovery_resumes_first {σ V : Type} {g : Grammar} {h : Host σ V} {options : Options}
    {control : Control} {source : Source} {host : σ} {I : σ → Prop} (valid : g.check = .ok ())
    (patient : h.Patient I) {c : Config σ V}
    (reached : Config.Reached g h options control source host c) {e : Evaluation σ V}
    (going : e.Going I) (stack : List Frame) (mark : Option Nat) (la : Token) :
    ∃ tokens last resumed c', c.lexer.tokensFrom g c.lexer.turns = .ok (tokens, last) ∧
      Config.recover g h ⟨c.lexer, e, stack, mark, la⟩ = .ok (resumed, c') ∧
      Config.Rescues g (Config.candidates la mark tokens) ⟨c.lexer, e, stack, mark, la⟩
        resumed c' := by
  have sound := Grammar.sound_of_check valid
  obtain ⟨healthy, _⟩ := reached.sound sound
  obtain ⟨⟨tokens, last⟩, read, _⟩ :=
    Lexer.yields_tokensFrom sound healthy.faithful (Nat.lt_succ_self _)
  obtain ⟨⟨resumed, c'⟩, recovered, rescues⟩ :=
    Config.yields_recover_picks (c := ⟨c.lexer, e, stack, mark, la⟩) sound patient
      healthy.faithful going read
  exact ⟨tokens, last, resumed, c', read, recovered, rescues⟩

section Example

open Samples.Calculator

/-- A parenthesis where an operand should be: it helps nobody, and the sign behind it stands after a
term that is put in the place of the operand. -/
theorem calculator_resumes_first : (grammar .hard).check = .ok () ∧
    host.Patient (fun m => m.log.stopOnFirst = false) ∧ ∃ c tokens last c',
      Config.Reached (grammar .hard) host .default .initial (.ofText "1+)*2" false)
        (Machine.start false) c ∧
      c.eval.Going (fun m => m.log.stopOnFirst = false) ∧ c.lookahead.id = closeParen ∧
      c.lexer.tokensFrom (grammar .hard) c.lexer.turns = .ok (tokens, last) ∧
      c.recover (grammar .hard) host = .ok (true, c') ∧ c'.lookahead.id = star ∧
      c'.states = 9 :: c.states ∧
      Config.Rescues (grammar .hard) (Config.candidates c.lookahead c.recoveredAt tokens) c true
        c' := by
  have valid := check_grammar .hard
  have facts : ((Config.start (grammar .hard) host (.ofText "1+)*2" false) .initial
      (Machine.start false)).toOption.bind fun c =>
        let c := c.last (grammar .hard) host .default 5
        (c.recover (grammar .hard) host).toOption.map fun (resumed, c') =>
          ((c.eval.control.stopped, c.eval.host.log.stopOnFirst), c.lookahead.id, resumed,
            c'.lookahead.id, c'.states == 9 :: c.states)) =
        some ((false, false), closeParen, true, star, true) := by decide +kernel
  obtain ⟨c, begun, _⟩ := Config.yields_start (Grammar.sound_of_check valid) host
    (.ofText "1+)*2" false) .initial (Machine.start false)
  have started : Config.Reached (grammar .hard) host .default .initial (.ofText "1+)*2" false)
    (Machine.start false) c := .start begun
  have reached := started.last 5
  rw [begun] at facts
  obtain ⟨⟨resumed, c'⟩, found, facts⟩ := Option.map_eq_some_iff.1 facts
  simp only [Prod.mk.injEq, beq_iff_eq] at facts
  obtain ⟨going, lookahead, rfl, sign, states⟩ := facts
  obtain ⟨tokens, last, resumed, c'', read, recovered, rescues⟩ := recovery_resumes_first valid
    host_patient reached going _ (c.last (grammar .hard) host .default 5).recoveredAt
    (c.last (grammar .hard) host .default 5).lookahead
  cases recovered.symm.trans (eq_ok_of_toOption found)
  exact ⟨valid, host_patient, _, tokens, last, c', reached, going, lookahead, read,
    eq_ok_of_toOption found, sign, states, rescues⟩

end Example

end GrammarMachine
