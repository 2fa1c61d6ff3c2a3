import GrammarMachine.Proofs.Parse.Equations

/-!
Two parses side by side. Grammars with the same skeleton read the same tokens and have the same
entries and gotos, so that two parses of one source stay in lockstep, whatever their semantic
actions and their hosts do, as long as they agree on when to stop. `Closed` lists what happens to
the evaluations on the way; a relation that is closed under it holds all along.
-/

namespace GrammarMachine

open Evaluation

namespace Grammar

/-- The grammar without semantic actions and attributes. -/
def skeleton (g : Grammar) : Grammar :=
  { g with
    nonterminals := g.nonterminals.map fun n => { n with attributeTypes := [] }
    rules := g.rules.map fun r => { r with actions := #[] } }

variable {g₁ g₂ : Grammar}

theorem recovery?_skeleton (g : Grammar) : g.skeleton.recovery? = g.recovery? := rfl

theorem hasRecovery_skeleton (g : Grammar) : g.skeleton.hasRecovery = g.hasRecovery := rfl

theorem state_skeleton (g : Grammar) : g.skeleton.state = g.state := rfl

theorem rule_of_skeleton (same : g₁.skeleton = g₂.skeleton) {id : UInt32} {r₁ r₂ : Rule}
    (first : g₁.rule id = .ok r₁) (second : g₂.rule id = .ok r₂) :
    r₁.length = r₂.length ∧ r₁.lhs = r₂.lhs := by
  have entries := congrArg (fun g => g.rules[id.toNat]?) same
  simp only [skeleton, Array.getElem?_map, fetch_eq_ok_iff.1 first, fetch_eq_ok_iff.1 second,
    Option.map_some, Option.some.injEq, Rule.mk.injEq] at entries
  exact ⟨entries.1, entries.2.1⟩

theorem goto?_of_skeleton (same : g₁.skeleton = g₂.skeleton) {id : UInt32} {n₁ n₂ : Nonterminal}
    (first : g₁.nonterminal id = .ok n₁) (second : g₂.nonterminal id = .ok n₂) :
    n₁.goto? = n₂.goto? := by
  have entries := congrArg (fun g => g.nonterminals[id.toNat]?) same
  simp only [skeleton, Array.getElem?_map, fetch_eq_ok_iff.1 first, fetch_eq_ok_iff.1 second,
    Option.map_some, Option.some.injEq, Nonterminal.mk.injEq, true_and] at entries
  funext source
  rw [Nonterminal.goto?, Nonterminal.goto?, entries]

end Grammar

namespace Lexer

theorem skipComment_skeleton (g : Grammar) (start : Origin) (n : Nat) :
    skipComment g.skeleton start n = skipComment g start n := by
  induction n with
  | zero => rfl
  | succ n ih =>
    funext nesting l
    simp only [skipComment, ih]
    rfl

theorem nextFrom_skeleton (g : Grammar) (n : Nat) :
    nextFrom g.skeleton n = nextFrom g n := by
  induction n with
  | zero => rfl
  | succ n ih =>
    funext afterError l
    simp only [nextFrom, ih, skipComment_skeleton]
    rfl

theorem next_skeleton (g : Grammar) : next g.skeleton = next g := by
  funext l
  rw [next, next, nextFrom_skeleton]

end Lexer

namespace Evaluation

variable {σ V : Type}

/-- A token is shifted: its attributes, and the state with them. -/
def shifting (t : Token) (e : Evaluation σ V) : List Nat × Evaluation σ V :=
  let (attrs, e) := Config.tokenAttrs t e
  (attrs, { e with stats := { e.stats with shifts := e.stats.shifts + 1 } })

/-- A rule is reduced: the attributes of its left-hand side, and the state with them. -/
def reducing (o : Origin) (n : Nonterminal) (e : Evaluation σ V) : List Nat × Evaluation σ V :=
  let stats := { e.stats with reductions := e.stats.reductions + 1 }
  { e with stats }.allocMany (.pending ⟨none, [], o⟩) n.attributeCount

/-- A recovery resumes: the attributes of what it puts in place, and the state with them. -/
def resuming (n : Nonterminal) (e : Evaluation σ V) : List Nat × Evaluation σ V :=
  let stats := { e.stats with recoveries := e.stats.recoveries + 1 }
  { e with stats }.allocMany .null n.attributeCount

end Evaluation

/-- What a frame is without its attributes. -/
def Frame.bare (f : Frame) : UInt32 × Origin := (f.state, f.origin)

/-- What a parser does with the text, apart from all it computes. -/
inductive Turn where
  | shift (state : UInt32)
  | reduce (rule : UInt32)
  | accept
  | error (origin : Origin)
  /-- A recovery resumes on `token` with these frames on the stack. -/
  | recover (token : Token) (frames : List (UInt32 × Origin))
deriving DecidableEq, Repr

namespace Config

section Turns

variable {σ V : Type}

/-- The entry for the lookahead in the state on top. -/
def entry? (g : Grammar) (c : Config σ V) : Option Action :=
  c.stack.head?.bind fun top => g.states[top.state.toNat]?.bind fun state =>
    state.action? c.lookahead.id

theorem entry?_eq {g : Grammar} {c : Config σ V} {top : Frame} {below : List Frame}
    {state : ParserState} (stack : c.stack = top :: below)
    (found : g.state top.state = .ok state) : c.entry? g = state.action? c.lookahead.id := by
  have there : g.states[top.state.toNat]? = some state := fetch_eq_ok_iff.1 found
  rw [ entry?, stack, List.head?_cons, Option.bind_some, there, Option.bind_some]

/-- The recovery from an error after which the parse goes on. -/
def recovery : Progress (Config σ V) → List Turn
  | .more next => [.recover next.lookahead (next.stack.map Frame.bare)]
  | .done _ _ => []

/-- The turns that a step takes which leads to `p`. -/
def turns (g : Grammar) (c : Config σ V) (p : Progress (Config σ V)) : List Turn :=
  if c.eval.control.stopped then []
  else
    match c.entry? g with
    | none => []
    | some ⟨.shift, _, _, state⟩ => [.shift state]
    | some ⟨.reduce, _, _, rule⟩ => [.reduce rule]
    | some ⟨.accept, _, _, _⟩ => [.accept]
    | some ⟨.error, _, _, _⟩ => .error c.lookahead.origin :: recovery p

/-- The turns of at most `n` steps. -/
def trace (g : Grammar) (h : Host σ V) (options : Options) : Nat → Config σ V → List Turn
  | 0, _ => []
  | n + 1, c =>
    match c.advance g h options with
    | .ok (.more next) => c.turns g (.more next) ++ trace g h options n next
    | .ok (.done accepted last) => c.turns g (.done accepted last)
    | .error _ => []

end Turns

section Relations

variable {σ₁ V₁ σ₂ V₂ : Type}

/-- A relation between two evaluations, each with the attributes on its stack. -/
abbrev Pairing (σ₁ V₁ σ₂ V₂ : Type) : Type :=
  List (List Nat) → Evaluation σ₁ V₁ → List (List Nat) → Evaluation σ₂ V₂ → Prop

/-- The same but for attributes and evaluations, and these are related. -/
structure Alike (E : Pairing σ₁ V₁ σ₂ V₂) (c₁ : Config σ₁ V₁) (c₂ : Config σ₂ V₂) : Prop where
  lexer : c₁.lexer = c₂.lexer
  lookahead : c₁.lookahead = c₂.lookahead
  recoveredAt : c₁.recoveredAt = c₂.recoveredAt
  bare : c₁.stack.map Frame.bare = c₂.stack.map Frame.bare
  eval : E (c₁.stack.map Frame.attrs) c₁.eval (c₂.stack.map Frame.attrs) c₂.eval

/-- The parse goes on in related states, or ends in them with the same verdict. -/
inductive Abreast (E : Pairing σ₁ V₁ σ₂ V₂) :
    Progress (Config σ₁ V₁) → Progress (Config σ₂ V₂) → Prop
  | more {c₁ : Config σ₁ V₁} {c₂ : Config σ₂ V₂} (alike : Alike E c₁ c₂) :
      Abreast E (.more c₁) (.more c₂)
  | done {c₁ : Config σ₁ V₁} {c₂ : Config σ₂ V₂} (accepted : Bool) (alike : Alike E c₁ c₂) :
      Abreast E (.done accepted c₁) (.done accepted c₂)

/-- The relation agrees on stopping and is kept by all that a parse does to its evaluation. -/
structure Closed (g₁ : Grammar) (h₁ : Host σ₁ V₁) (g₂ : Grammar) (h₂ : Host σ₂ V₂)
    (E : Pairing σ₁ V₁ σ₂ V₂) : Prop where
  stopped : ∀ {A₁ e₁ A₂ e₂}, E A₁ e₁ A₂ e₂ → e₁.control.stopped = e₂.control.stopped
  lexical : ∀ {A₁ e₁ A₂ e₂} (o : Origin) (m : Message), E A₁ e₁ A₂ e₂ →
    E A₁ (e₁.report h₁ .lexical o m) A₂ (e₂.report h₂ .lexical o m)
  syntactic : ∀ {A₁ e₁ A₂ e₂} (state : ParserState) (t : Token), E A₁ e₁ A₂ e₂ →
    E A₁ (e₁.report h₁ .syntactic t.origin (.syntaxError g₁ h₁ e₁.host state t))
      A₂ (e₂.report h₂ .syntactic t.origin (.syntaxError g₂ h₂ e₂.host state t))
  drop : ∀ {A₁ e₁ A₂ e₂} (n : Nat), E A₁ e₁ A₂ e₂ → E (A₁.drop n) e₁ (A₂.drop n) e₂
  shift : ∀ {A₁ e₁ A₂ e₂} (t : Token), E A₁ e₁ A₂ e₂ →
    E ((e₁.shifting t).1 :: A₁) (e₁.shifting t).2 ((e₂.shifting t).1 :: A₂) (e₂.shifting t).2
  resume : ∀ {A₁ e₁ A₂ e₂ id n₁ n₂}, g₁.nonterminal id = .ok n₁ → g₂.nonterminal id = .ok n₂ →
    E A₁ e₁ A₂ e₂ →
    E ((e₁.resuming n₁).1 :: A₁) (e₁.resuming n₁).2 ((e₂.resuming n₂).1 :: A₂) (e₂.resuming n₂).2
  reduce : ∀ {A₁ e₁ e₁' A₂ e₂ e₂' id r₁ r₂ n₁ n₂} (o : Origin),
    g₁.rule id = .ok r₁ → g₂.rule id = .ok r₂ →
    g₁.nonterminal r₁.lhs = .ok n₁ → g₂.nonterminal r₂.lhs = .ok n₂ → E A₁ e₁ A₂ e₂ →
    runRule g₁ h₁ id (e₁.reducing o n₁).1 (A₁.take r₁.length.toNat).reverse (e₁.reducing o n₁).2 =
      .ok e₁' →
    runRule g₂ h₂ id (e₂.reducing o n₂).1 (A₂.take r₂.length.toNat).reverse (e₂.reducing o n₂).2 =
      .ok e₂' →
    E ((e₁.reducing o n₁).1 :: A₁.drop r₁.length.toNat) e₁'
      ((e₂.reducing o n₂).1 :: A₂.drop r₂.length.toNat) e₂'

end Relations

variable {σ₁ V₁ σ₂ V₂ : Type} {g₁ g₂ : Grammar} {h₁ : Host σ₁ V₁} {h₂ : Host σ₂ V₂}
  {E : Pairing σ₁ V₁ σ₂ V₂} {c₁ : Config σ₁ V₁} {c₂ : Config σ₂ V₂}

section Steps

theorem Closed.reports (closed : Closed g₁ h₁ g₂ h₂ E) {A₁ A₂ : List (List Nat)}
    {e₁ : Evaluation σ₁ V₁} {e₂ : Evaluation σ₂ V₂} (ds : List Diagnostic)
    (related : E A₁ e₁ A₂ e₂) :
    E A₁ (ds.foldl (fun eval d => eval.report h₁ .lexical d.origin d.message) e₁)
      A₂ (ds.foldl (fun eval d => eval.report h₂ .lexical d.origin d.message) e₂) := by
  induction ds generalizing e₁ e₂ with
  | nil => exact related
  | cons d rest ih => exact ih (closed.lexical d.origin d.message related)

theorem matches_pull (closed : Closed g₁ h₁ g₂ h₂ E) (same : g₁.skeleton = g₂.skeleton) (l : Lexer)
    {A₁ A₂ : List (List Nat)} {e₁ : Evaluation σ₁ V₁} {e₂ : Evaluation σ₂ V₂}
    (related : E A₁ e₁ A₂ e₂) :
    Matches (fun p q => p.1 = q.1 ∧ p.2.1 = q.2.1 ∧ E A₁ p.2.2 A₂ q.2.2)
      (pull g₁ h₁ l e₁) (pull g₂ h₂ l e₂) := by
  unfold pull
  rw [← Lexer.next_skeleton g₁, same, Lexer.next_skeleton g₂]
  refine .same fun (t, l') _ => ?_
  exact .pure ⟨rfl, rfl, closed.reports _ related⟩

theorem matches_readOn (closed : Closed g₁ h₁ g₂ h₂ E) (same : g₁.skeleton = g₂.skeleton)
    (alike : c₁.Alike E c₂) : Matches (Alike E) (c₁.readOn g₁ h₁) (c₂.readOn g₂ h₂) := by
  obtain ⟨lexer, lookahead, recoveredAt, bare, eval⟩ := alike
  unfold readOn
  dsimp only
  rw [lexer]
  refine (matches_pull closed same c₂.lexer eval).bind fun (t, l, e) (t', l', e') related => ?_
  obtain ⟨rfl, rfl, related⟩ := related
  exact .pure ⟨rfl, rfl, recoveredAt, bare, related⟩

theorem bare_cons {top₁ top₂ : Frame} {rest₁ rest₂ : List Frame} (top : top₁.bare = top₂.bare)
    (rest : rest₁.map Frame.bare = rest₂.map Frame.bare) :
    (top₁ :: rest₁).map Frame.bare = (top₂ :: rest₂).map Frame.bare := by
  rw [List.map_cons, List.map_cons, top, rest]

theorem shift_eq {σ V : Type} (g : Grammar) (h : Host σ V) (target : UInt32) (c : Config σ V) :
    c.shift g h target = do
      let (attrs, e) := c.eval.shifting c.lookahead
      let (t, l, e) ← pull g h c.lexer e
      return ⟨l, e, ⟨target, attrs, c.lookahead.origin⟩ :: c.stack, c.recoveredAt, t⟩ := rfl

theorem matches_shift (closed : Closed g₁ h₁ g₂ h₂ E) (same : g₁.skeleton = g₂.skeleton)
    (alike : c₁.Alike E c₂) (target : UInt32) :
    Matches (Alike E) (c₁.shift g₁ h₁ target) (c₂.shift g₂ h₂ target) := by
  obtain ⟨lexer, lookahead, recoveredAt, bare, eval⟩ := alike
  have shifted := closed.shift c₁.lookahead eval
  rw [shift_eq, shift_eq, lexer, ← lookahead]
  refine (matches_pull closed same c₂.lexer shifted).bind fun (t, l, e) (t', l', e') related => ?_
  obtain ⟨rfl, rfl, related⟩ := related
  exact .pure ⟨rfl, rfl, recoveredAt, bare_cons rfl bare, related⟩

/-- A right-hand side as long as `length` is there on both stacks or on neither. -/
theorem drop_of_bare {stack₁ stack₂ : List Frame}
    (bare : stack₁.map Frame.bare = stack₂.map Frame.bare) (length : Nat) :
    (stack₁.drop length = [] ∧ stack₂.drop length = []) ∨
      ∃ base₁ below₁ base₂ below₂, stack₁.drop length = base₁ :: below₁ ∧
        stack₂.drop length = base₂ :: below₂ ∧ base₁.state = base₂.state := by
  have dropped : (stack₁.drop length).map Frame.bare = (stack₂.drop length).map Frame.bare := by
    rw [List.map_drop, List.map_drop, bare]
  cases first : stack₁.drop length with
  | nil =>
    rw [first] at dropped
    exact .inl ⟨rfl, List.map_eq_nil_iff.1 dropped.symm⟩
  | cons base₁ below₁ =>
    rw [first, List.map_cons] at dropped
    obtain ⟨base₂, below₂, second, state, _⟩ := List.map_eq_cons_iff.1 dropped.symm
    exact .inr ⟨base₁, below₁, base₂, below₂, rfl, second, (congrArg Prod.fst state).symm⟩

/-- The origin of the first of some frames, or another one if there is none. -/
theorem origin_of_bare {frames₁ frames₂ : List Frame}
    (bare : frames₁.map Frame.bare = frames₂.map Frame.bare) (other : Origin) :
    (frames₁.head?.map Frame.origin).getD other = (frames₂.head?.map Frame.origin).getD other := by
  have first (frames : List Frame) :
      frames.head?.map Frame.origin = (frames.map Frame.bare).head?.map Prod.snd := by
    simp [Frame.bare, Function.comp_def]
  rw [first, first, bare]

theorem attrs_take_reverse (stack : List Frame) (n : Nat) :
    (stack.take n).reverse.map Frame.attrs = ((stack.map Frame.attrs).take n).reverse := by
  rw [List.map_reverse, List.map_take]

theorem reduce_eq {σ V : Type} (g : Grammar) (h : Host σ V) (id : UInt32) (c : Config σ V) :
    c.reduce g h id = (do
      let rule ← g.rule id
      match c.stack.drop rule.length.toNat with
      | [] => return .done false c
      | base :: below =>
        let rhs := (c.stack.take rule.length.toNat).reverse
        let origin := (rhs.head?.map Frame.origin).getD c.lookahead.origin
        let nonterminal ← g.nonterminal rule.lhs
        let (attrs, e) := c.eval.reducing origin nonterminal
        let e ← runRule g h id attrs (rhs.map Frame.attrs) e
        match nonterminal.goto? base.state with
        | none => return .done false ⟨c.lexer, e, base :: below, c.recoveredAt, c.lookahead⟩
        | some target =>
          return .more ⟨c.lexer, e, ⟨target, attrs, origin⟩ :: base :: below, c.recoveredAt,
            c.lookahead⟩) := rfl

section Reductions

variable {σ V : Type} {g : Grammar} {h : Host σ V} {c : Config σ V} {id : UInt32}
  {p : Progress (Config σ V)}

/-- Where a reduction by this rule puts its frame: where the first one of the right-hand side is, or
the lookahead if there is none. -/
def placeOf (c : Config σ V) (r : Rule) : Origin :=
  ((c.stack.take r.length.toNat).reverse.head?.map Frame.origin).getD c.lookahead.origin

/-- The right-hand side of the rule is on the stack, and its actions lead to `e`. -/
structure RunsRule (g : Grammar) (h : Host σ V) (id : UInt32) (c : Config σ V) (r : Rule)
    (n : Nonterminal) (base : Frame) (below : List Frame) (e : Evaluation σ V) : Prop where
  rule : g.rule id = .ok r
  popped : c.stack.drop r.length.toNat = base :: below
  nonterminal : g.nonterminal r.lhs = .ok n
  ran : runRule g h id (c.eval.reducing (c.placeOf r) n).1
    ((c.stack.take r.length.toNat).reverse.map Frame.attrs) (c.eval.reducing (c.placeOf r) n).2 =
      .ok e

/-- The cases of a reduction. -/
inductive Replaces (g : Grammar) (h : Host σ V) (id : UInt32) (c : Config σ V) :
    Progress (Config σ V) → Prop
  | short {r : Rule} (rule : g.rule id = .ok r) (none : c.stack.drop r.length.toNat = []) :
      Replaces g h id c (.done false c)
  /-- The nonterminal has nowhere to go. -/
  | stuck {r : Rule} {n : Nonterminal} {base : Frame} {below : List Frame} {e : Evaluation σ V}
      (runs : RunsRule g h id c r n base below e) (nowhere : n.goto? base.state = none) :
      Replaces g h id c (.done false ⟨c.lexer, e, base :: below, c.recoveredAt, c.lookahead⟩)
  | goes {r : Rule} {n : Nonterminal} {base : Frame} {below : List Frame} {e : Evaluation σ V}
      {target : UInt32} (runs : RunsRule g h id c r n base below e)
      (goto : n.goto? base.state = some target) :
      Replaces g h id c (.more ⟨c.lexer, e,
        ⟨target, (c.eval.reducing (c.placeOf r) n).1, c.placeOf r⟩ :: base :: below, c.recoveredAt,
        c.lookahead⟩)

theorem replaces_of_reduce (reduced : c.reduce g h id = .ok p) : Replaces g h id c p := by
  rw [reduce_eq] at reduced
  obtain ⟨r, rule, rest⟩ := bind_eq_ok_iff.1 reduced
  split at rest
  · next none =>
    cases rest
    exact .short rule none
  · next base below popped =>
    obtain ⟨n, nonterminal, rest⟩ := bind_eq_ok_iff.1 rest
    obtain ⟨e, ran, rest⟩ := bind_eq_ok_iff.1 rest
    have runs : RunsRule g h id c r n base below e := ⟨rule, popped, nonterminal, ran⟩
    split at rest
    · next nowhere =>
      cases rest
      exact .stuck runs nowhere
    · next target goto =>
      cases rest
      exact .goes runs goto

end Reductions

theorem matches_reduce (closed : Closed g₁ h₁ g₂ h₂ E) (same : g₁.skeleton = g₂.skeleton)
    (alike : c₁.Alike E c₂) (id : UInt32) :
    Matches (Abreast E) (c₁.reduce g₁ h₁ id) (c₂.reduce g₂ h₂ id) := by
  have whole := alike
  obtain ⟨lexer, lookahead, recoveredAt, bare, eval⟩ := alike
  rw [reduce_eq, reduce_eq]
  refine Matches.both.bind fun r₁ r₂ ⟨rule₁, rule₂⟩ => ?_
  obtain ⟨length, lhs⟩ := Grammar.rule_of_skeleton same rule₁ rule₂
  rw [← length, ← lhs]
  rcases drop_of_bare bare r₁.length.toNat with ⟨none₁, none₂⟩ |
    ⟨base₁, below₁, base₂, below₂, popped₁, popped₂, state⟩
  · rw [none₁, none₂]
    exact .pure (.done false whole)
  · rw [popped₁, popped₂]
    dsimp only
    have rhs : (c₁.stack.take r₁.length.toNat).reverse.map Frame.bare =
        (c₂.stack.take r₁.length.toNat).reverse.map Frame.bare := by
      simp only [List.map_reverse, List.map_take, bare]
    rw [lookahead, origin_of_bare rhs, attrs_take_reverse, attrs_take_reverse]
    generalize ((c₂.stack.take r₁.length.toNat).reverse.head?.map Frame.origin).getD
      c₂.lookahead.origin = origin
    refine Matches.both.bind fun n₁ n₂ ⟨found₁, found₂⟩ => ?_
    rw [← Grammar.goto?_of_skeleton same found₁ found₂, ← state]
    refine Matches.both.bind fun e₁ e₂ ⟨ran₁, ran₂⟩ => ?_
    have related := closed.reduce _ rule₁ rule₂ found₁ (lhs ▸ found₂) eval ran₁ (length ▸ ran₂)
    rw [← length, ← List.map_drop, ← List.map_drop, popped₁, popped₂] at related
    have below : (base₁ :: below₁).map Frame.bare = (base₂ :: below₂).map Frame.bare := by
      rw [← popped₁, ← popped₂, List.map_drop, List.map_drop, bare]
    cases n₁.goto? base₁.state with
    | none =>
      exact .pure (.done false ⟨lexer, rfl, recoveredAt, below, closed.drop 1 related⟩)
    | some target =>
      exact .pure (.more ⟨lexer, rfl, recoveredAt, bare_cons rfl below, related⟩)

theorem resume_eq {σ V : Type} (g : Grammar) (entry : RecoveryEntry) (frame : Frame)
    (below : List Frame) (c : Config σ V) :
    c.resume g entry frame below = (do
      let nonterminal ← g.nonterminal entry.nonterminal
      match nonterminal.goto? frame.state with
      | none => return (false, c)
      | some target =>
        let (attrs, e) := c.eval.resuming nonterminal
        return (true, ⟨c.lexer, e, ⟨target, attrs, c.lookahead.origin⟩ :: frame :: below,
          some c.lookahead.origin.pos, c.lookahead⟩)) := rfl

/-- A recovery that resumes on both sides or on neither, in related states. -/
def Resumed (E : Pairing σ₁ V₁ σ₂ V₂) (p : Bool × Config σ₁ V₁) (q : Bool × Config σ₂ V₂) : Prop :=
  p.1 = q.1 ∧ p.2.Alike E q.2

theorem matches_resume (closed : Closed g₁ h₁ g₂ h₂ E) (same : g₁.skeleton = g₂.skeleton)
    (alike : c₁.Alike E c₂) (entry : RecoveryEntry) {n : Nat} {frame₁ frame₂ : Frame}
    {below₁ below₂ : List Frame} (cut₁ : c₁.stack.drop n = frame₁ :: below₁)
    (cut₂ : c₂.stack.drop n = frame₂ :: below₂) :
    Matches (Resumed E) (c₁.resume g₁ entry frame₁ below₁) (c₂.resume g₂ entry frame₂ below₂) := by
  have whole := alike
  obtain ⟨lexer, lookahead, recoveredAt, bare, eval⟩ := alike
  have below : (frame₁ :: below₁).map Frame.bare = (frame₂ :: below₂).map Frame.bare := by
    rw [← cut₁, ← cut₂, List.map_drop, List.map_drop, bare]
  have state : frame₁.state = frame₂.state := congrArg Prod.fst (List.cons.inj below).1
  rw [resume_eq, resume_eq]
  refine Matches.both.bind fun n₁ n₂ ⟨found₁, found₂⟩ => ?_
  rw [← Grammar.goto?_of_skeleton same found₁ found₂, ← state]
  cases n₁.goto? frame₁.state with
  | none => exact .pure ⟨rfl, whole⟩
  | some target =>
    have related := closed.resume found₁ found₂ (closed.drop n eval)
    rw [← List.map_drop, ← List.map_drop, cut₁, cut₂] at related
    have top := congrArg (fun t : Token => (target, t.origin)) lookahead
    exact .pure ⟨rfl, lexer, lookahead, congrArg (fun t : Token => some t.origin.pos) lookahead,
      bare_cons top below, related⟩

/-- On both stacks the same entry is found at the same height, or on both none. -/
theorem resumption?_of_bare (entries : List RecoveryEntry) {stack₁ stack₂ : List Frame}
    (bare : stack₁.map Frame.bare = stack₂.map Frame.bare) :
    (resumption? entries stack₁ = none ∧ resumption? entries stack₂ = none) ∨
      ∃ entry n frame₁ below₁ frame₂ below₂,
        resumption? entries stack₁ = some (entry, frame₁, below₁) ∧
        resumption? entries stack₂ = some (entry, frame₂, below₂) ∧
        stack₁.drop n = frame₁ :: below₁ ∧ stack₂.drop n = frame₂ :: below₂ := by
  induction stack₁ generalizing stack₂ with
  | nil =>
    rw [List.map_eq_nil_iff.1 bare.symm]
    exact .inl ⟨rfl, rfl⟩
  | cons top₁ rest₁ ih =>
    obtain ⟨top₂, rest₂, rfl, top, rest⟩ := List.map_eq_cons_iff.1 bare.symm
    have state : top₂.state = top₁.state := congrArg Prod.fst top
    unfold resumption?
    rw [state]
    cases entries.find? fun entry => entry.state == top₁.state with
    | some entry => exact .inr ⟨entry, 0, top₁, rest₁, top₂, rest₂, rfl, rfl, rfl, rfl⟩
    | none =>
      rcases ih rest.symm with missing | ⟨entry, n, frame₁, below₁, frame₂, below₂, found⟩
      · exact .inl missing
      · exact .inr ⟨entry, n + 1, frame₁, below₁, frame₂, below₂, found⟩

theorem matches_recoverFrom (closed : Closed g₁ h₁ g₂ h₂ E) (same : g₁.skeleton = g₂.skeleton)
    (alike : c₁.Alike E c₂) (n : Nat) :
    Matches (Resumed E) (recoverFrom g₁ h₁ n c₁) (recoverFrom g₂ h₂ n c₂) := by
  induction n generalizing c₁ c₂ with
  | zero =>
    intro _ _ impossible
    cases impossible
  | succ n ih =>
    unfold recoverFrom
    rw [alike.lookahead, closed.stopped alike.eval, ← Grammar.recovery?_skeleton g₁, same,
      Grammar.recovery?_skeleton g₂]
    split
    · exact .pure ⟨rfl, alike⟩
    · have on := (matches_readOn closed same alike).bind fun c c' later => ih later
      cases g₂.recovery? c₂.lookahead.id with
      | none => exact on
      | some r =>
        rcases resumption?_of_bare r.entries alike.bare with ⟨none₁, none₂⟩ |
          ⟨entry, k, frame₁, below₁, frame₂, below₂, found₁, found₂, cut₁, cut₂⟩
        · rw [Option.bind_some, Option.bind_some, none₁, none₂]
          exact on
        · rw [Option.bind_some, Option.bind_some, found₁, found₂]
          exact matches_resume closed same alike entry cut₁ cut₂

theorem matches_recover (closed : Closed g₁ h₁ g₂ h₂ E) (same : g₁.skeleton = g₂.skeleton)
    (alike : c₁.Alike E c₂) : Matches (Resumed E) (c₁.recover g₁ h₁) (c₂.recover g₂ h₂) := by
  unfold recover
  rw [← Grammar.hasRecovery_skeleton g₁, same, Grammar.hasRecovery_skeleton g₂, alike.recoveredAt,
    alike.lookahead]
  split
  · exact .pure ⟨rfl, alike⟩
  · have on : ∀ c c', c.Alike E c' → Matches (Resumed E) (recoverFrom g₁ h₁ (c.lexer.turns + 1) c)
        (recoverFrom g₂ h₂ (c'.lexer.turns + 1) c') := by
      intro c c' later
      rw [later.lexer]
      exact matches_recoverFrom closed same later _
    dsimp only
    split
    · exact (matches_readOn closed same alike).bind on
    · exact on c₁ c₂ alike

theorem matches_fail (closed : Closed g₁ h₁ g₂ h₂ E) (same : g₁.skeleton = g₂.skeleton)
    (alike : c₁.Alike E c₂) {options₁ options₂ : Options}
    (stop : options₁.stopOnError = options₂.stopOnError) (state : ParserState) :
    Matches (Abreast E) (c₁.fail g₁ h₁ options₁ state) (c₂.fail g₂ h₂ options₂ state) := by
  have reported : (c₁.reportSyntax g₁ h₁ state).Alike E (c₂.reportSyntax g₂ h₂ state) := by
    obtain ⟨lexer, lookahead, recoveredAt, bare, eval⟩ := alike
    have related := closed.syntactic state c₁.lookahead eval
    refine ⟨lexer, lookahead, recoveredAt, bare, ?_⟩
    rw [lookahead] at related
    rwa [reportSyntax, reportSyntax, lookahead]
  unfold fail
  dsimp only
  rw [stop, closed.stopped reported.eval]
  split
  · exact .pure (.done false reported)
  · refine (matches_recover closed same reported).bind fun (resumed, c) (resumed', c') both => ?_
    obtain ⟨rfl, later⟩ : resumed = resumed' ∧ c.Alike E c' := both
    cases resumed with
    | true => exact .pure (.more later)
    | false => exact .pure (.done false later)

theorem matches_step (closed : Closed g₁ h₁ g₂ h₂ E) (same : g₁.skeleton = g₂.skeleton)
    (alike : c₁.Alike E c₂) {options₁ options₂ : Options}
    (stop : options₁.stopOnError = options₂.stopOnError) :
    Matches (Abreast E) (c₁.step g₁ h₁ options₁) (c₂.step g₂ h₂ options₂) := by
  unfold step
  rw [alike.lookahead, ← Grammar.state_skeleton g₁, same, Grammar.state_skeleton g₂]
  rcases drop_of_bare alike.bare 0 with ⟨none₁, none₂⟩ |
    ⟨top₁, below₁, top₂, below₂, stack₁, stack₂, state⟩
  · rw [List.drop_zero] at none₁ none₂
    rw [none₁, none₂]
    exact .pure (.done false alike)
  · rw [List.drop_zero] at stack₁ stack₂
    rw [stack₁, stack₂]
    dsimp only
    rw [state]
    refine Matches.same fun state _ => ?_
    cases state.action? c₂.lookahead.id with
    | none => exact .pure (.done false alike)
    | some action =>
      obtain ⟨kind, low, high, aux⟩ := action
      cases kind with
      | shift =>
        exact (matches_shift closed same alike aux).bind fun c c' later => .pure (.more later)
      | reduce => exact matches_reduce closed same alike aux
      | accept => exact .pure (.done true alike)
      | error => exact matches_fail closed same alike stop state

theorem matches_advance (closed : Closed g₁ h₁ g₂ h₂ E) (same : g₁.skeleton = g₂.skeleton)
    (alike : c₁.Alike E c₂) {options₁ options₂ : Options}
    (stop : options₁.stopOnError = options₂.stopOnError) :
    Matches (Abreast E) (c₁.advance g₁ h₁ options₁) (c₂.advance g₂ h₂ options₂) := by
  unfold advance
  rw [closed.stopped alike.eval]
  split
  · exact .pure (.done false alike)
  · exact matches_step closed same alike stop

end Steps

section Runs

variable {options₁ options₂ : Options}

theorem entry?_of_alike (same : g₁.skeleton = g₂.skeleton) (alike : c₁.Alike E c₂) :
    c₁.entry? g₁ = c₂.entry? g₂ := by
  have states : g₁.skeleton.states = g₂.skeleton.states := by rw [same]
  have head {σ V : Type} (g : Grammar) (c : Config σ V) :
      c.entry? g = (c.stack.map Frame.bare).head?.bind fun top =>
        g.states[top.1.toNat]?.bind fun state => state.action? c.lookahead.id := by
    unfold entry?
    cases c.stack <;> rfl
  rw [head, head, alike.bare, alike.lookahead, show g₁.states = g₂.states from states]

theorem turns_of_abreast (closed : Closed g₁ h₁ g₂ h₂ E) (same : g₁.skeleton = g₂.skeleton)
    (alike : c₁.Alike E c₂) {p₁ : Progress (Config σ₁ V₁)} {p₂ : Progress (Config σ₂ V₂)}
    (abreast : Abreast E p₁ p₂) : c₁.turns g₁ p₁ = c₂.turns g₂ p₂ := by
  unfold turns
  have recovered : recovery p₁ = recovery p₂ := by
    cases abreast with
    | more later => rw [recovery, recovery, later.lookahead, later.bare]
    | done => rfl
  rw [closed.stopped alike.eval, entry?_of_alike same alike, alike.lookahead, recovered]

/-- Runs of the same length: the same turns, related states at the end, and one has ended if the
other has. -/
theorem run_alike (closed : Closed g₁ h₁ g₂ h₂ E) (same : g₁.skeleton = g₂.skeleton)
    (stop : options₁.stopOnError = options₂.stopOnError) (sound₁ : g₁.Sound) (sound₂ : g₂.Sound)
    (healthy₁ : c₁.Sound g₁) (healthy₂ : c₂.Sound g₂) (alike : c₁.Alike E c₂) (fuel : Nat) :
    c₁.trace g₁ h₁ options₁ fuel = c₂.trace g₂ h₂ options₂ fuel ∧
      (c₁.last g₁ h₁ options₁ fuel).Alike E (c₂.last g₂ h₂ options₂ fuel) ∧
      ((c₁.run g₁ h₁ options₁ fuel = .ok none ∧ c₂.run g₂ h₂ options₂ fuel = .ok none) ∨
        ∃ accepted,
          c₁.run g₁ h₁ options₁ fuel =
            .ok (some (.ofConfig accepted (c₁.last g₁ h₁ options₁ fuel))) ∧
          c₂.run g₂ h₂ options₂ fuel =
            .ok (some (.ofConfig accepted (c₂.last g₂ h₂ options₂ fuel)))) := by
  induction fuel generalizing c₁ c₂ with
  | zero => exact ⟨rfl, alike, .inl ⟨rfl, rfl⟩⟩
  | succ fuel ih =>
    obtain ⟨p₁, result₁, follows₁⟩ : Yields (c₁.advance g₁ h₁ options₁) _ :=
      yields_advance sound₁ healthy₁
    obtain ⟨p₂, result₂, follows₂⟩ : Yields (c₂.advance g₂ h₂ options₂) _ :=
      yields_advance sound₂ healthy₂
    have abreast := matches_advance closed same alike stop p₁ p₂ result₁ result₂
    have turns := turns_of_abreast closed same alike abreast
    unfold trace last run
    rw [result₁, result₂]
    cases abreast with
    | @more next₁ next₂ later =>
      have healthy₁ : next₁.Sound g₁ := follows₁.sound
      obtain ⟨trace, rest⟩ := ih healthy₁ follows₂.sound later
      dsimp only
      rw [turns, trace]
      exact ⟨rfl, rest⟩
    | done accepted later => exact ⟨turns, later, .inr ⟨accepted, rfl, rfl⟩⟩

end Runs

end Config

variable {σ₁ V₁ σ₂ V₂ : Type} {g₁ g₂ : Grammar} {h₁ : Host σ₁ V₁} {h₂ : Host σ₂ V₂}
  {E : Config.Pairing σ₁ V₁ σ₂ V₂} {options₁ options₂ : Options}

/-- The turns of a parse. -/
def parseTrace {σ V : Type} (control : Control) (g : Grammar) (h : Host σ V) (options : Options)
    (fuel : Nat) (source : Source) (host : σ) : Except Fault (List Turn) := do
  let c ← Config.start g h source control host
  return c.trace g h options fuel

/-- Two parses of one source in lockstep: they take the same turns, and what holds of their
evaluations in the beginning holds after any number of steps. -/
theorem parse_alike (closed : Config.Closed g₁ h₁ g₂ h₂ E) (same : g₁.skeleton = g₂.skeleton)
    (stop : options₁.stopOnError = options₂.stopOnError) (sound₁ : g₁.Sound) (sound₂ : g₂.Sound)
    {control₁ control₂ : Control} {host₁ : σ₁} {host₂ : σ₂}
    (start : E [[]] (.initial control₁ host₁) [[]] (.initial control₂ host₂)) (source : Source)
    (fuel : Nat) :
    ∃ trace last₁ last₂,
      parseTrace control₁ g₁ h₁ options₁ fuel source host₁ = .ok trace ∧
      parseTrace control₂ g₂ h₂ options₂ fuel source host₂ = .ok trace ∧
      parseLast control₁ g₁ h₁ options₁ fuel source host₁ = .ok last₁ ∧
      parseLast control₂ g₂ h₂ options₂ fuel source host₂ = .ok last₂ ∧ last₁.Alike E last₂ ∧
      ((parseUnder control₁ g₁ h₁ options₁ fuel source host₁ = .ok none ∧
          parseUnder control₂ g₂ h₂ options₂ fuel source host₂ = .ok none) ∨
        ∃ accepted,
          parseUnder control₁ g₁ h₁ options₁ fuel source host₁ =
            .ok (some (.ofConfig accepted last₁)) ∧
          parseUnder control₂ g₂ h₂ options₂ fuel source host₂ =
            .ok (some (.ofConfig accepted last₂))) := by
  obtain ⟨c₁, begun₁, healthy₁, _⟩ := Config.yields_start sound₁ h₁ source control₁ host₁
  obtain ⟨c₂, begun₂, healthy₂, _⟩ := Config.yields_start sound₂ h₂ source control₂ host₂
  have alike : c₁.Alike E c₂ := by
    refine Matches.bind (Config.matches_pull closed same (Lexer.start source) start) ?_ c₁ c₂
      begun₁ begun₂
    rintro ⟨t, l, e⟩ ⟨t', l', e'⟩ ⟨rfl, rfl, related⟩
    exact .pure ⟨rfl, rfl, rfl, rfl, related⟩
  obtain ⟨trace, later, ends⟩ :=
    Config.run_alike closed same stop sound₁ sound₂ healthy₁ healthy₂ alike fuel
  refine ⟨c₁.trace g₁ h₁ options₁ fuel, c₁.last g₁ h₁ options₁ fuel, c₂.last g₂ h₂ options₂ fuel,
    ?_, ?_, ?_, ?_, later, ?_⟩
  · rw [parseTrace, begun₁]
    rfl
  · rw [parseTrace, begun₂, trace]
    rfl
  · rw [parseLast, begun₁]
    rfl
  · rw [parseLast, begun₂]
    rfl
  · rw [parseUnder, parseUnder, begun₁, begun₂]
    exact ends

end GrammarMachine
