import GrammarMachine.Parse.Recovery
import GrammarMachine.Proofs.Evaluation.History
import GrammarMachine.Proofs.Lexer.Progress

/-!
Sound states of a parse, and how they read on and recover. Reading past a token other than the end
of text leaves less to read; a recovery that resumes has read on, or resumes on the token it met,
which then is marked and was not before.
-/

namespace GrammarMachine

variable {σ V : Type} {g : Grammar} {h : Host σ V}

namespace Evaluation

variable {e e' : Evaluation σ V}

/-- Nodes that join the graph one by one, each with a move of its own. -/
theorem deeds_allocMany {node : Node V} (tell : Nat → List (Event σ V))
    (move : ∀ e : Evaluation σ V,
      Move g h e (tell e.graph.size) { e with graph := (e.graph.alloc node).2 }) (n : Nat) :
    Deeds g h e ((e.graph.allocMany node n).1.flatMap tell)
        { e with graph := (e.graph.allocMany node n).2 } ∧
      ∀ id ∈ (e.graph.allocMany node n).1, id < (e.graph.allocMany node n).2.size := by
  induction n generalizing e with
  | zero => exact ⟨.refl, fun _ mem => nomatch mem⟩
  | succ n ih =>
    have first := Deeds.of_move (move e) fun _ => ⟨rfl, rfl, _, _, _, rfl⟩
    obtain ⟨later, inside⟩ := ih (e := { e with graph := (e.graph.alloc node).2 })
    refine ⟨first.trans later, List.forall_mem_cons.2 ⟨?_, inside⟩⟩
    have one : e.graph.size < (e.graph.alloc node).2.size := by
      rw [Graph.size_alloc]
      exact Nat.lt_succ_self _
    exact Nat.lt_of_lt_of_le one later.runs.grows.size

/-- A recovery puts nodes without values in the graph. -/
theorem deeds_allocMany_null (n : Nat) (e : Evaluation σ V) :
    Deeds g h e [] { e with graph := (e.graph.allocMany .null n).2 } ∧
      ∀ id ∈ (e.graph.allocMany .null n).1, id < (e.graph.allocMany .null n).2.size := by
  have null : ∀ e : Evaluation σ V, Move g h e [] { e with graph := (e.graph.alloc .null).2 } :=
    fun e => .leaf rfl
  obtain ⟨deeds, inside⟩ := deeds_allocMany (e := e) (fun _ => []) null n
  rw [List.flatMap_eq_nil_iff.2 fun _ _ => rfl] at deeds
  exact ⟨deeds, inside⟩

theorem undisturbed_reports (h : Host σ V) (ds : List Diagnostic) (e : Evaluation σ V) :
    e.Undisturbed (ds.foldl (fun eval d => eval.report h .lexical d.origin d.message) e) := by
  induction ds generalizing e with
  | nil => exact .refl e
  | cons d rest ih => exact (undisturbed_report h .lexical d.origin d.message e).trans (ih _)

end Evaluation

open Evaluation

/-- The next token is delivered, and reports are all that happens to the evaluation. -/
theorem yields_pull (sound : g.Sound) {l : Lexer} (faithful : l.cursor.Faithful)
    (e : Evaluation σ V) :
    Yields (pull g h l e) fun (t, l', e') => l.Delivers g t l' ∧ e.Undisturbed e' := by
  refine (Lexer.yields_next sound faithful).bind fun (t, l') delivered => ?_
  obtain ⟨leads, known, passes, behind, before, inside⟩ := delivered
  have delivers : l.Delivers g t l'.takeDiagnostics.2 :=
    ⟨leads.congr rfl, known, fun other => (passes other).congr rfl, behind, before, inside⟩
  exact .pure ⟨delivers, undisturbed_reports h _ e⟩

namespace Config

/-- Frames name states of the grammar and nodes of the graph. -/
structure Standing (g : Grammar) (graph : Graph V) (stack : List Frame) : Prop where
  states : ∀ f ∈ stack, f.state.toNat < g.states.size
  attrs : ∀ f ∈ stack, ∀ id ∈ f.attrs, id < graph.size

namespace Standing

variable {graph graph' : Graph V} {stack stack' : List Frame}

theorem grows (standing : Standing g graph stack) (grows : graph.Grows graph') :
    Standing g graph' stack :=
  ⟨standing.states, fun f mem id inside =>
    Nat.lt_of_lt_of_le (standing.attrs f mem id inside) grows.size⟩

theorem subset (standing : Standing g graph stack) (subset : stack' ⊆ stack) :
    Standing g graph stack' :=
  ⟨fun f mem => standing.states f (subset mem), fun f mem => standing.attrs f (subset mem)⟩

theorem cons {f : Frame} (standing : Standing g graph stack)
    (state : f.state.toNat < g.states.size) (attrs : ∀ id ∈ f.attrs, id < graph.size) :
    Standing g graph (f :: stack) :=
  ⟨List.forall_mem_cons.2 ⟨state, standing.states⟩, List.forall_mem_cons.2 ⟨attrs, standing.attrs⟩⟩

end Standing

/-- A state between two steps: all it names is there, and nothing is left to attempt. -/
structure Sound (g : Grammar) (c : Config σ V) : Prop where
  faithful : c.lexer.cursor.Faithful
  eval : c.eval.Sound g
  queue : c.eval.queue = []
  standing : Standing g c.eval.graph c.stack
  lookahead : c.lookahead.id.toNat < g.tokens.size

/-- What is left to read, the lookahead included. -/
def left (c : Config σ V) : Nat :=
  if c.lookahead.isEnd then 0 else c.lexer.cursor.remaining + 1

variable {c c' c'' : Config σ V}

/-- The lookahead is followed by the next token. -/
structure Reads (g : Grammar) (c c' : Config σ V) : Prop where
  delivers : c.lexer.Delivers g c'.lookahead c'.lexer
  eval : c.eval.Undisturbed c'.eval
  stack : c'.stack = c.stack
  recoveredAt : c'.recoveredAt = c.recoveredAt

theorem left_lt_of_delivers (delivers : c.lexer.Delivers g c'.lookahead c'.lexer)
    (going : c.lookahead.isEnd = false) : c'.left < c.left := by
  unfold left
  rw [going]
  cases ended : c'.lookahead.isEnd with
  | true => exact Nat.succ_pos _
  | false => exact Nat.succ_lt_succ (delivers.passes ended).remaining_lt

theorem Reads.sound (reads : c.Reads g c') (healthy : c.Sound g) : c'.Sound g := by
  obtain ⟨delivers, eval, stack, _⟩ := reads
  refine ⟨delivers.leads.faithful, eval.sound healthy.eval, eval.queue.trans healthy.queue, ?_,
    delivers.known⟩
  rw [stack, eval.graph]
  exact healthy.standing

theorem yields_readOn (sound : g.Sound) (healthy : c.Sound g) :
    Yields (c.readOn g h) (c.Reads g) :=
  (yields_pull sound healthy.faithful c.eval).bind fun (_, _, _) ⟨delivers, same⟩ =>
    .pure ⟨delivers, same, rfl, rfl⟩

/-- The end of a recovery. One that resumes has read on, or has marked the lookahead. -/
structure Recovers (g : Grammar) (h : Host σ V) (c : Config σ V) (resumed : Bool)
    (c' : Config σ V) : Prop where
  sound : c'.Sound g
  run : Runs g h c.eval [] c'.eval
  going : resumed = true → c'.lookahead.isEnd = false
  progress : resumed = true → c'.left < c.left ∨
    c'.lookahead = c.lookahead ∧ c'.lexer = c.lexer ∧
      c'.recoveredAt = some c.lookahead.origin.pos

theorem Recovers.left_le {resumed : Bool} (recovers : c.Recovers g h resumed c')
    (success : resumed = true) : c'.left ≤ c.left := by
  rcases recovers.progress success with less | ⟨lookahead, lexer, _⟩
  · exact Nat.le_of_lt less
  · have same : c'.left = c.left := by rw [left, left, lookahead, lexer]
    exact Nat.le_of_eq same

/-- A recovery after reading past a token has read on. -/
theorem Recovers.after {resumed : Bool} (recovers : c'.Recovers g h resumed c'')
    (reads : c.Reads g c') (going : c.lookahead.isEnd = false) :
    c.Recovers g h resumed c'' where
  sound := recovers.sound
  run := (Runs.of_move (.note reads.eval)).trans recovers.run
  going := recovers.going
  progress success := .inl
    (Nat.lt_of_le_of_lt (recovers.left_le success) (left_lt_of_delivers reads.delivers going))

/-- A recovery that finds nothing leaves all as it is. -/
theorem refused (healthy : c.Sound g) : c.Recovers g h false c :=
  ⟨healthy, .refl, (nomatch ·), (nomatch ·)⟩

theorem mem_of_resumption? {entries : List RecoveryEntry} {entry : RecoveryEntry} {frame : Frame}
    {below stack : List Frame} (found : resumption? entries stack = some (entry, frame, below)) :
    entry ∈ entries ∧ frame :: below ⊆ stack := by
  induction stack with
  | nil => cases found
  | cons top rest ih =>
    unfold resumption? at found
    split at found
    · next first =>
      cases found
      exact ⟨List.mem_of_find?_eq_some first, List.Subset.refl _⟩
    · obtain ⟨mem, subset⟩ := ih found
      exact ⟨mem, fun f inside => List.mem_cons_of_mem top (subset inside)⟩

theorem yields_resume (sound : g.Sound) (healthy : c.Sound g) {entry : RecoveryEntry}
    {frame : Frame} {below : List Frame} (going : c.lookahead.isEnd = false)
    (subset : frame :: below ⊆ c.stack)
    (inside : entry.nonterminal.toNat < g.nonterminals.size) :
    Yields (c.resume g entry frame below) fun (resumed, c') => c.Recovers g h resumed c' := by
  refine (yields_fetch inside).bind fun nonterminal there => ?_
  dsimp only
  split
  · exact .pure (refused healthy)
  · next target goes =>
    obtain ⟨pair, mem, rfl⟩ := Nonterminal.mem_of_goto? goes
    have state := sound.goto nonterminal (Array.mem_of_getElem? there) pair mem
    obtain ⟨deeds, attrs⟩ :=
      deeds_allocMany_null (g := g) (h := h) nonterminal.attributeCount c.eval
    have run := deeds.runs
    have standing := (healthy.standing.subset subset).grows run.grows
    have run : Runs g h c.eval [] { c.eval with
        graph := (c.eval.graph.allocMany .null nonterminal.attributeCount).2
        stats := { c.eval.stats with recoveries := c.eval.stats.recoveries + 1 } } :=
      run.step (.note ⟨rfl, rfl, rfl, rfl⟩)
    exact .pure ⟨⟨healthy.faithful, run.sound healthy.eval, healthy.queue,
      standing.cons state attrs, healthy.lookahead⟩, run, fun _ => going,
      fun _ => .inr ⟨rfl, rfl, rfl⟩⟩

theorem yields_recoverFrom (sound : g.Sound) (healthy : c.Sound g) {n : Nat} (enough : c.left < n) :
    Yields (recoverFrom g h n c) fun (resumed, c') => c.Recovers g h resumed c' := by
  induction n generalizing c with
  | zero => omega
  | succ n ih =>
    unfold recoverFrom
    split
    · exact .pure (refused healthy)
    · next open_ =>
      have going : c.lookahead.isEnd = false := by
        rw [Bool.not_eq_true, Bool.or_eq_false_iff] at open_
        exact open_.1
      dsimp only
      split
      · next entry frame below found =>
        obtain ⟨r, listed, resumes⟩ := Option.bind_eq_some_iff.1 found
        obtain ⟨mem, subset⟩ := mem_of_resumption? resumes
        have inside := sound.recovery r (List.mem_of_find?_eq_some listed) entry mem
        exact yields_resume sound healthy going subset inside
      · refine (yields_readOn sound healthy).bind fun c' reads => ?_
        have less := left_lt_of_delivers reads.delivers going
        refine (ih (reads.sound healthy) (by omega)).mono fun (resumed, c'') recovers => ?_
        exact recovers.after reads going

/-- A recovery that resumes has read on, or resumes on a token that the last one did not. -/
theorem yields_recover (sound : g.Sound) (healthy : c.Sound g) :
    Yields (c.recover g h) fun (resumed, c') => c.Recovers g h resumed c' ∧
      (resumed = true → c'.left < c.left ∨ c.recoveredAt ≠ some c.lookahead.origin.pos) := by
  have bounded : ∀ c : Config σ V, c.left < c.lexer.turns + 1 := by
    intro c
    unfold left Lexer.turns
    split <;> omega
  unfold recover
  split
  · exact .pure ⟨refused healthy, (nomatch ·)⟩
  · split
    · next again =>
      have going : c.lookahead.isEnd = false := by
        rw [Bool.and_eq_true, Bool.not_eq_true'] at again
        exact again.2
      refine (yields_readOn sound healthy).bind fun c' reads => ?_
      refine (yields_recoverFrom sound (reads.sound healthy) (bounded c')).mono ?_
      intro (resumed, c'') recovers
      have less := left_lt_of_delivers reads.delivers going
      exact ⟨recovers.after reads going, fun success =>
        .inl (Nat.lt_of_le_of_lt (recovers.left_le success) less)⟩
    · next other =>
      refine (yields_recoverFrom sound healthy (bounded c)).mono fun (resumed, c') recovers => ?_
      refine ⟨recovers, fun success => ?_⟩
      rcases recovers.progress success with less | ⟨lookahead, _, _⟩
      · exact .inl less
      · have going := recovers.going success
        rw [lookahead] at going
        simp only [going, Bool.not_false, Bool.and_true, beq_iff_eq] at other
        exact .inr other

end Config

end GrammarMachine
