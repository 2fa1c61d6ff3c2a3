import GrammarMachine.Proofs.Parse.Recognition
import Mathlib.Computability.ContextFreeGrammar

/-!
Tables that accept exactly a context-free language. A chart says what the tables of a grammar are
meant for: the productions that its rules stand for, the edges along which its states follow each
other, and the terminals that can begin a nonterminal or follow it. That the tables are as the chart
says takes finitely many checks, and then the bare machine accepts what the productions generate: a
run is a rightmost derivation backwards, and a derivation leads the machine from state to state.
-/

namespace GrammarMachine

/-- The context-free grammar with these productions, over the numbers that name terminals and
nonterminals. -/
abbrev contextFree (start : UInt32) (productions : List (ContextFreeRule UInt32 UInt32)) :
    ContextFreeGrammar UInt32 where
  NT := UInt32
  initial := start
  rules := productions.toFinset

/-- From `source`, a `symbol` leads to `target`. -/
structure Edge where
  source : UInt32
  symbol : Symbol UInt32 UInt32
  target : UInt32
deriving DecidableEq

structure Chart where
  start : UInt32
  /-- In the order of the rules. -/
  productions : List (ContextFreeRule UInt32 UInt32)
  edges : List Edge
  /-- Terminals that can begin a nonterminal. -/
  first : UInt32 → List UInt32
  /-- Terminals that can follow a nonterminal. -/
  follow : UInt32 → List UInt32

namespace Chart

/-- The ways that lead to a state by `n` symbols, and where they start. -/
def back (c : Chart) : Nat → UInt32 → List (List (Symbol UInt32 UInt32) × UInt32)
  | 0, s => [([], s)]
  | n + 1, s => (c.edges.filter fun e => e.target == s).flatMap fun e =>
      (c.back n e.source).map fun (xs, base) => (xs ++ [e.symbol], base)

def next? (c : Chart) (s : UInt32) (x : Symbol UInt32 UInt32) : Option UInt32 :=
  (c.edges.find? fun e => e.source == s && e.symbol == x).map Edge.target

/-- Pushes the states along the way of these symbols. -/
def walk (c : Chart) : List (Symbol UInt32 UInt32) → List UInt32 → Option (List UInt32)
  | [], stack => some stack
  | _ :: _, [] => none
  | x :: xs, s :: below => (c.next? s x).bind fun q => c.walk xs (q :: s :: below)

/-- Terminals that can begin these symbols, if they stand in front of one of `after`. -/
def firstOf (c : Chart) : List (Symbol UInt32 UInt32) → List UInt32 → List UInt32
  | [], after => after
  | .terminal t :: _, _ => [t]
  | .nonterminal n :: _, _ => c.first n

/-- Can each nonterminal be followed by what begins the rest? -/
def allows (c : Chart) : List (Symbol UInt32 UInt32) → List UInt32 → Bool
  | [], _ => true
  | .terminal _ :: xs, after => c.allows xs after
  | .nonterminal n :: xs, after =>
    (c.firstOf xs after).all (c.follow n).contains && c.allows xs after

end Chart

namespace Grammar

/-- The declared entries of all states. -/
def entries (g : Grammar) : List (UInt32 × Action) :=
  g.states.toList.zipIdx.flatMap fun (state, i) =>
    state.declared.toList.map fun a => (UInt32.ofNat i, a)

/-- The state that a symbol leads to. -/
def next? (g : Grammar) (s : UInt32) : Symbol UInt32 UInt32 → Option UInt32
  | .terminal t => (g.entry? s t).bind fun a => if a.kind = .shift then some a.aux else none
  | .nonterminal n => g.nonterminals[n.toNat]?.bind fun n => n.goto? s

def reducesOn (g : Grammar) (s : UInt32) (rule : Nat) (terminal : UInt32) : Bool :=
  (g.entry? s terminal).any fun a => a.kind == .reduce && a.aux.toNat == rule

def acceptsIn (g : Grammar) (s : UInt32) : Bool :=
  (g.entry? s endOfText).any fun a => a.kind == .accept

end Grammar

/-- The tables are as the chart says. Numbers are gone through by `all` and `any`: a quantifier over
them would be decided by trying all 32-bit words. -/
structure Chart.Fits (c : Chart) (g : Grammar) : Prop where
  rules : g.rules.toList.map (fun r => (r.lhs, r.length.toNat)) =
    c.productions.map fun p => (p.input, p.output.length)
  /-- Entries that shift follow an edge. -/
  shift : ∀ e ∈ g.entries, e.2.kind = .shift → e.2.low = e.2.high ∧ e.2.low ≠ endOfText ∧
    ⟨e.1, .terminal e.2.low, e.2.aux⟩ ∈ c.edges
  /-- On all ways to an entry that reduces, the production can be undone. -/
  reduce : ∀ e ∈ g.entries, e.2.kind = .reduce → ∀ p ∈ c.productions[e.2.aux.toNat]?,
    ∀ way ∈ c.back p.output.length e.1, way.1 = p.output ∧
      (g.next? way.2 (.nonterminal p.input)).all fun target =>
        c.edges.contains ⟨way.2, .nonterminal p.input, target⟩
  /-- Entries that accept stand behind the start symbol, at the end of text. -/
  accept : ∀ e ∈ g.entries, e.2.kind = .accept → e.2.low = endOfText ∧ e.2.high = endOfText ∧
    e.1 ≠ 0 ∧ ∀ way ∈ c.back 1 e.1, way = ([.nonterminal c.start], 0)
  bottom : ∀ e ∈ c.edges, e.target ≠ 0
  edges : ∀ e ∈ c.edges, g.next? e.source e.symbol = some e.target
  /-- Where a nonterminal can be shifted, each of its productions can be walked and reduced. -/
  closure : ∀ e ∈ c.edges, ∀ p ∈ c.productions.zipIdx, e.symbol = .nonterminal p.1.input →
    ∃ stack ∈ c.walk p.1.output [e.source],
      stack.head?.any fun s => (c.follow p.1.input).all (g.reducesOn s p.2)
  first : ∀ p ∈ c.productions, p.output ≠ [] ∧
    (c.firstOf p.output []).all (c.first p.input).contains
  follow : ∀ p ∈ c.productions, c.allows p.output (c.follow p.input) = true
  start : c.allows [.nonterminal c.start] [endOfText] = true ∧
    ∃ stack ∈ c.walk [.nonterminal c.start] [0], stack.head?.any g.acceptsIn

variable {g : Grammar} {c : Chart} {s : UInt32} {below ids : List UInt32}
  {xs : List (Symbol UInt32 UInt32)}

/-- The entry found for a terminal is a declared one that covers it, or an error. -/
theorem Grammar.mem_entries (sound : g.Sound) {t : UInt32} {a : Action}
    (found : g.entry? s t = some a) (kind : a.kind ≠ .error) :
    (s, a) ∈ g.entries ∧ a.low ≤ t ∧ t ≤ a.high := by
  obtain ⟨state, there, action⟩ := Option.bind_eq_some_iff.1 found
  have mem := Array.mem_of_getElem? there
  rcases ParserState.mem_of_action? action with ⟨declared, bounds⟩ | back
  · refine ⟨?_, bounds⟩
    simp only [entries, List.mem_flatMap, List.mem_map, Prod.exists]
    refine ⟨state, s.toNat, ?_, a, Array.mem_toList_iff.2 declared, by simp⟩
    simpa [List.mem_zipIdx_iff_getElem?] using there
  · obtain ⟨last, back', error⟩ := sound.catchAll state mem
    cases back.symm.trans back'
    exact absurd error kind

namespace Chart

theorem Fits.production (fits : c.Fits g) (i : Nat) :
    g.rules[i]?.map (fun r => (r.lhs, r.length.toNat)) =
      c.productions[i]?.map fun p => (p.input, p.output.length) := by
  have same := congrArg (fun l => l[i]?) fits.rules
  simpa using same

/-- An entry that shifts is for one terminal, along an edge of the chart. -/
theorem Fits.edge_of_shift (fits : c.Fits g) (sound : g.Sound) {t : UInt32} {a : Action}
    (entry : g.entry? s t = some a) (kind : a.kind = .shift) :
    ⟨s, .terminal t, a.aux⟩ ∈ c.edges := by
  obtain ⟨mem, low, high⟩ := g.mem_entries sound entry (by simp [kind])
  obtain ⟨single, _, edge⟩ := fits.shift _ mem kind
  dsimp only at single edge
  rw [← single] at high
  rwa [UInt32.le_antisymm low high] at edge

theorem Fits.endsLast (fits : c.Fits g) (sound : g.Sound) : g.EndsLast where
  shift found kind := by
    obtain ⟨mem, low, high⟩ := g.mem_entries sound found (by simp [kind])
    obtain ⟨single, going, _⟩ := fits.shift _ mem kind
    dsimp only at single going
    rintro rfl
    rw [← single] at high
    exact going (UInt32.le_antisymm low high)
  accept found kind := by
    obtain ⟨mem, low, high⟩ := g.mem_entries sound found (by simp [kind])
    obtain ⟨first, last, _⟩ := fits.accept _ mem kind
    dsimp only at first last
    rw [first] at low
    rw [last] at high
    exact UInt32.le_antisymm high low

/-- A way goes on along an edge. -/
theorem mem_back_succ {n : Nat} {base q : UInt32} {x : Symbol UInt32 UInt32}
    (way : (xs, base) ∈ c.back n s) (edge : ⟨s, x, q⟩ ∈ c.edges) :
    (xs ++ [x], base) ∈ c.back (n + 1) q := by
  simp only [back, List.mem_flatMap, List.mem_filter, List.mem_map]
  exact ⟨_, ⟨edge, by simp⟩, _, way, rfl⟩

section Runs

/-- These symbols lead from the bottom of the stack to its top. -/
inductive Spelled (c : Chart) : List UInt32 → List (Symbol UInt32 UInt32) → Prop
  | bottom : Spelled c [0] []
  | push {s q : UInt32} {x : Symbol UInt32 UInt32} {below : List UInt32}
      {xs : List (Symbol UInt32 UInt32)} (spelled : Spelled c (s :: below) xs)
      (edge : ⟨s, x, q⟩ ∈ c.edges) : Spelled c (q :: s :: below) (xs ++ [x])

/-- Below `n` states stands the start of a way. -/
theorem Spelled.pop (spelled : c.Spelled (s :: below) xs) {n : Nat} {base : UInt32}
    {under : List UInt32} (popped : (s :: below).drop n = base :: under) :
    ∃ ys zs, xs = ys ++ zs ∧ (zs, base) ∈ c.back n s ∧ c.Spelled (base :: under) ys := by
  induction n generalizing s below xs with
  | zero =>
    cases popped
    exact ⟨xs, [], by simp, by simp [back], spelled⟩
  | succ n ih =>
    cases spelled with
    | bottom => simp at popped
    | @push s' _ x below' xs' spelled edge =>
      obtain ⟨ys, zs, rfl, way, rest⟩ := ih spelled popped
      exact ⟨ys, zs ++ [x], by simp, mem_back_succ way edge, rest⟩

theorem Spelled.eq_nil (fits : c.Fits g) (spelled : c.Spelled (0 :: below) xs) : xs = [] := by
  cases spelled with
  | bottom => rfl
  | push _ edge => exact absurd rfl (fits.bottom _ edge)

/-- A run that accepts is a derivation of what is on the stack and ahead. -/
theorem derives_of_accepts (fits : c.Fits g) (sound : g.Sound) {stack : List UInt32}
    (accepts : g.Accepts stack ids) (spelled : c.Spelled stack xs) :
    (contextFree c.start c.productions).Derives [.nonterminal c.start]
      (xs ++ ids.map .terminal) := by
  induction accepts generalizing xs with
  | @shift s t below ids a entry kind _ ih =>
    simpa using ih (.push spelled (fits.edge_of_shift sound entry kind))
  | @reduce s base target below under ids a r n entry kind rule popped lhs goto _ ih =>
    obtain ⟨mem, _⟩ := g.mem_entries sound entry (by simp [kind])
    have production := fits.production a.aux.toNat
    rw [rule, Option.map_some, eq_comm, Option.map_eq_some_iff] at production
    obtain ⟨p, there, same⟩ := production
    obtain ⟨input, length⟩ := Prod.mk.inj same
    rw [← length] at popped
    obtain ⟨ys, zs, rfl, way, rest⟩ := spelled.pop popped
    obtain ⟨output, edges⟩ := fits.reduce _ mem kind p there _ way
    have edge : ⟨base, .nonterminal p.input, target⟩ ∈ c.edges := by
      simpa [Grammar.next?, input, lhs, goto] using edges
    dsimp only at output
    subst output
    have derived := ih (.push rest edge)
    refine derived.trans_produces ⟨p, ?_, p.rewrites_of_exists_parts ys _⟩
    exact List.mem_toFinset.2 (List.mem_of_getElem? there)
  | @accept s below a entry kind =>
    obtain ⟨mem, _⟩ := g.mem_entries sound entry (by simp [kind])
    obtain ⟨_, _, above, ways⟩ := fits.accept _ mem kind
    cases spelled with
    | bottom => exact absurd rfl above
    | @push s' _ x below xs spelled edge =>
      obtain ⟨ys, zs, same, way, rest⟩ := (spelled.push edge).pop (n := 1) rfl
      cases ways _ way
      rw [same, rest.eq_nil fits]
      exact .refl _

end Runs

section Derivations

/-- The symbols derive the word, production by production from the left. -/
inductive Unfolds (productions : List (ContextFreeRule UInt32 UInt32)) :
    List (Symbol UInt32 UInt32) → List UInt32 → Prop
  | nil : Unfolds productions [] []
  | terminal (t : UInt32) {xs : List (Symbol UInt32 UInt32)} {w : List UInt32}
      (rest : Unfolds productions xs w) : Unfolds productions (.terminal t :: xs) (t :: w)
  | nonterminal {p : ContextFreeRule UInt32 UInt32} {xs : List (Symbol UInt32 UInt32)}
      {u w : List UInt32} (mem : p ∈ productions) (inside : Unfolds productions p.output u)
      (rest : Unfolds productions xs w) : Unfolds productions (.nonterminal p.input :: xs) (u ++ w)

variable {productions : List (ContextFreeRule UInt32 UInt32)} {w : List UInt32}
  {ys : List (Symbol UInt32 UInt32)}

theorem Unfolds.split (unfolds : Unfolds productions (xs ++ ys) w) :
    ∃ u v, w = u ++ v ∧ Unfolds productions xs u ∧ Unfolds productions ys v := by
  induction xs generalizing w with
  | nil => exact ⟨[], w, rfl, .nil, unfolds⟩
  | cons x xs ih =>
    cases unfolds with
    | terminal t rest =>
      obtain ⟨u, v, rfl, left, right⟩ := ih rest
      exact ⟨t :: u, v, rfl, .terminal t left, right⟩
    | @nonterminal p _ u _ mem inside rest =>
      obtain ⟨u', v, rfl, left, right⟩ := ih rest
      exact ⟨u ++ u', v, by simp, .nonterminal mem inside left, right⟩

theorem Unfolds.of_rewrites {p : ContextFreeRule UInt32 UInt32} (mem : p ∈ productions)
    (rewrites : p.Rewrites xs ys) (unfolds : Unfolds productions ys w) :
    Unfolds productions xs w := by
  induction rewrites generalizing w with
  | head =>
    obtain ⟨u, v, rfl, inside, rest⟩ := unfolds.split
    exact .nonterminal mem inside rest
  | cons x _ ih =>
    cases unfolds with
    | terminal t rest => exact .terminal t (ih rest)
    | nonterminal mem' inside rest => exact .nonterminal mem' inside (ih rest)

theorem unfolds_terminals (w : List UInt32) : Unfolds productions (w.map .terminal) w := by
  induction w with
  | nil => exact .nil
  | cons t w ih => exact .terminal t ih

theorem unfolds_of_derives {start : UInt32}
    (derives : (contextFree start productions).Derives xs (w.map .terminal)) :
    Unfolds productions xs w := by
  induction derives using Relation.ReflTransGen.head_induction_on with
  | refl => exact unfolds_terminals w
  | head produces _ ih =>
    obtain ⟨p, mem, rewrites⟩ := produces
    exact .of_rewrites (List.mem_toFinset.1 mem) rewrites ih

variable {stack stack' : List UInt32}

theorem mem_of_next? {x : Symbol UInt32 UInt32} {q : UInt32} (found : c.next? s x = some q) :
    ⟨s, x, q⟩ ∈ c.edges := by
  obtain ⟨e, edge, rfl⟩ := Option.map_eq_some_iff.1 found
  have matched := List.find?_some edge
  simp only [Bool.and_eq_true, beq_iff_eq] at matched
  obtain ⟨rfl, rfl⟩ := matched
  exact List.mem_of_find?_eq_some edge

theorem walk_append (walked : c.walk xs stack = some stack') (under : List UInt32) :
    c.walk xs (stack ++ under) = some (stack' ++ under) := by
  fun_induction walk c xs stack with
  | case1 =>
    cases walked
    rfl
  | case2 => cases walked
  | case3 x xs s below ih =>
    obtain ⟨q, next, rest⟩ := Option.bind_eq_some_iff.1 walked
    have higher := ih q rest
    simpa [walk, next] using higher

theorem drop_of_walk (walked : c.walk xs stack = some stack') : stack'.drop xs.length = stack := by
  fun_induction walk c xs stack with
  | case1 =>
    cases walked
    rfl
  | case2 => cases walked
  | case3 x xs s below ih =>
    obtain ⟨q, _, rest⟩ := Option.bind_eq_some_iff.1 walked
    have higher := congrArg (List.drop 1) (ih q rest)
    simpa [List.drop_drop] using higher

theorem firstOf_eq (some : xs ≠ []) (after after' : List UInt32) :
    c.firstOf xs after = c.firstOf xs after' := by
  cases xs with
  | nil => exact absurd rfl some
  | cons x xs => cases x <;> rfl

/-- What a word begins with can begin the symbols that derive it. -/
theorem Unfolds.ahead_mem (fits : c.Fits g) (unfolds : Unfolds c.productions xs w)
    {v after : List UInt32} (follows : ahead v ∈ after) : ahead (w ++ v) ∈ c.firstOf xs after := by
  induction unfolds generalizing v after with
  | nil => exact follows
  | terminal t => simp [firstOf, ahead]
  | @nonterminal p xs u w mem _ _ inside _ =>
    obtain ⟨some, first⟩ := fits.first p mem
    have begun := inside (v := w ++ v) (List.mem_singleton_self _)
    rw [firstOf_eq some _ []] at begun
    rw [List.append_assoc]
    exact List.contains_iff_mem.1 (List.all_eq_true.1 first _ begun)

/-- Where a nonterminal can be shifted, the machine comes to that from behind its production. -/
theorem Fits.accepts_reduced (fits : c.Fits g) {p : ContextFreeRule UInt32 UInt32} {q : UInt32}
    (mem : p ∈ c.productions) (edge : ⟨s, .nonterminal p.input, q⟩ ∈ c.edges)
    (follows : ahead ids ∈ c.follow p.input) (accepts : g.Accepts (q :: s :: below) ids) :
    ∃ stack, c.walk p.output (s :: below) = some stack ∧ g.Accepts stack ids := by
  obtain ⟨i, there⟩ := List.mem_iff_getElem?.1 mem
  obtain ⟨pushed, way, reduces⟩ :=
    fits.closure _ edge (p, i) (List.mem_zipIdx_iff_getElem?.2 there) rfl
  obtain ⟨top, head, reduces⟩ := (Option.any_eq_true _ _).1 reduces
  obtain ⟨a, entry, matched⟩ := (Option.any_eq_true _ _).1 (List.all_eq_true.1 reduces _ follows)
  simp only [Bool.and_eq_true, beq_iff_eq] at matched
  obtain ⟨kind, rfl⟩ := matched
  have walked : c.walk p.output (s :: below) = some (pushed ++ below) := walk_append way below
  refine ⟨_, walked, ?_⟩
  have popped := drop_of_walk walked
  have rule := fits.production a.aux.toNat
  rw [there, Option.map_some, Option.map_eq_some_iff] at rule
  obtain ⟨r, rule, same⟩ := rule
  obtain ⟨lhs, length⟩ := Prod.mk.inj same
  obtain ⟨n, nonterminal, goto⟩ := Option.bind_eq_some_iff.1 (fits.edges _ edge)
  obtain ⟨others, rfl⟩ := List.head?_eq_some_iff.1 head
  exact .reduce entry kind rule (length ▸ popped) (lhs ▸ nonterminal) goto accepts

/-- Where the symbols can be walked, the machine reads the word that they derive. -/
theorem Unfolds.accepts (fits : c.Fits g) (unfolds : Unfolds c.productions xs w)
    {v after : List UInt32} (walked : c.walk xs stack = some stack')
    (allowed : c.allows xs after = true) (follows : ahead v ∈ after)
    (accepts : g.Accepts stack' v) : g.Accepts stack (w ++ v) := by
  induction unfolds generalizing stack stack' v after with
  | nil =>
    cases walked
    exact accepts
  | @terminal t xs w _ ih =>
    cases stack with
    | nil => cases walked
    | cons s below =>
      obtain ⟨q, next, walked⟩ := Option.bind_eq_some_iff.1 walked
      obtain ⟨a, entry, target⟩ :=
        Option.bind_eq_some_iff.1 (fits.edges _ (mem_of_next? next))
      obtain ⟨kind, same⟩ := Option.ite_none_right_eq_some.1 target
      cases same
      exact .shift entry kind (ih walked allowed follows accepts)
  | @nonterminal p xs u w mem _ rest inside later =>
    cases stack with
    | nil => cases walked
    | cons s below =>
      obtain ⟨q, next, walked⟩ := Option.bind_eq_some_iff.1 walked
      simp only [allows, Bool.and_eq_true, List.all_eq_true, List.contains_iff_mem] at allowed
      have follows' : ahead (w ++ v) ∈ c.follow p.input :=
        allowed.1 _ (rest.ahead_mem fits follows)
      obtain ⟨pushed, way, reduced⟩ := fits.accepts_reduced mem (mem_of_next? next) follows'
        (later walked allowed.2 follows accepts)
      rw [List.append_assoc]
      exact inside way (fits.follow p mem) follows' reduced

end Derivations

/-- Tables that fit a chart accept what its productions generate. -/
theorem Fits.accepts_iff (fits : c.Fits g) (sound : g.Sound) :
    g.Accepts [0] ids ↔ ids ∈ (contextFree c.start c.productions).language := by
  constructor
  · intro accepts
    exact derives_of_accepts fits sound accepts .bottom
  · intro derives
    obtain ⟨allowed, stack, walked, accepting⟩ := fits.start
    obtain ⟨s, top, accepting⟩ := (Option.any_eq_true _ _).1 accepting
    obtain ⟨a, entry, kind⟩ := (Option.any_eq_true _ _).1 accepting
    obtain ⟨below, rfl⟩ := List.head?_eq_some_iff.1 top
    have accepts := (unfolds_of_derives derives).accepts fits walked allowed
      (List.mem_singleton_self _) (.accept entry (beq_iff_eq.1 kind))
    rwa [List.append_nil] at accepts

end Chart

end GrammarMachine
