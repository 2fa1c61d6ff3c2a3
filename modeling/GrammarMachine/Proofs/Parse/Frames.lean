import GrammarMachine.Proofs.Parse.Chart
import GrammarMachine.Proofs.Parse.Steps

/-!
Stacks that follow a chart. Each frame stands at the end of an edge from the frame below it, and its
attributes suit the symbol of the edge. Where the tables reduce, all ways that lead to the state on
top are as long as the right-hand side at least, and end where the left-hand side has somewhere to
go; so a reduction always finds what it needs, and finds it suited to the production.
-/

namespace GrammarMachine.Chart

/-- The ways to an entry that reduces are long enough and lead on, and a recovery goes along edges.
Everything ranges over lists and options, so that it can be decided. -/
structure Firm (c : Chart) (g : Grammar) : Prop where
  deep : ∀ e ∈ g.entries, e.2.kind = .reduce → ∀ p ∈ c.productions[e.2.aux.toNat]?,
    ∀ k ∈ List.range p.output.length, ∀ way ∈ c.back k e.1, way.2 ≠ 0
  goto : ∀ e ∈ g.entries, e.2.kind = .reduce → ∀ p ∈ c.productions[e.2.aux.toNat]?,
    ∀ way ∈ c.back p.output.length e.1, (g.next? way.2 (.nonterminal p.input)).isSome
  recovery : ∀ r ∈ g.recoveries, ∀ e ∈ r.entries,
    ∀ target ∈ g.next? e.state (.nonterminal e.nonterminal),
      ⟨e.state, .nonterminal e.nonterminal, target⟩ ∈ c.edges

/-- What attributes are for a symbol. -/
abbrev Suitability : Type := Symbol UInt32 UInt32 → List Nat → Prop

inductive Furnished (c : Chart) (T : Suitability) : List Frame → Prop
  | bottom {f : Frame} (state : f.state = 0) : Furnished c T [f]
  | push {q f : Frame} {x : Symbol UInt32 UInt32} {below : List Frame}
      (furnished : Furnished c T (f :: below)) (edge : ⟨f.state, x, q.state⟩ ∈ c.edges)
      (suits : T x q.attrs) : Furnished c T (q :: f :: below)

namespace Furnished

variable {g : Grammar} {c : Chart} {T T' : Suitability} {f : Frame} {below stack : List Frame}

theorem imp (furnished : c.Furnished T stack) (weaker : ∀ x attrs, T x attrs → T' x attrs) :
    c.Furnished T' stack := by
  induction furnished with
  | bottom state => exact .bottom state
  | push _ edge suits ih => exact .push ih edge (weaker _ _ suits)

theorem ne_nil (furnished : c.Furnished T stack) : stack ≠ [] := by
  cases furnished <;> exact List.cons_ne_nil _ _

/-- A stack that is cut stays furnished. -/
theorem under {above : List Frame} (furnished : c.Furnished T (above ++ f :: below)) :
    c.Furnished T (f :: below) := by
  induction above with
  | nil => exact furnished
  | cons q above ih =>
    have lower : c.Furnished T (above ++ f :: below) := by
      cases above <;> cases furnished <;> assumption
    exact ih lower

/-- Below `n` frames there is another one, with suitable attributes above it, unless the bottom is
reached by a shorter way. -/
theorem pop (furnished : c.Furnished T (f :: below)) (n : Nat) :
    (∃ k < n, ∃ way ∈ c.back k f.state, way.2 = 0) ∨
      ∃ base under xs, (f :: below).drop n = base :: under ∧ (xs, base.state) ∈ c.back n f.state ∧
        List.Forall₂ T xs (((f :: below).take n).reverse.map Frame.attrs) ∧
        c.Furnished T (base :: under) := by
  induction n generalizing f below with
  | zero => exact .inr ⟨f, below, [], rfl, List.mem_singleton_self _, .nil, furnished⟩
  | succ n ih =>
    cases furnished with
    | bottom state => exact .inl ⟨0, Nat.succ_pos n, _, List.mem_singleton_self _, state⟩
    | @push _ next x below lower edge suits =>
      rcases ih lower with ⟨k, less, ⟨xs, base⟩, way, bottom⟩ |
        ⟨base, under, xs, popped, way, all, rest⟩
      · exact .inl ⟨k + 1, Nat.succ_lt_succ less, _, mem_back_succ way edge, bottom⟩
      · refine .inr ⟨base, under, xs ++ [x], popped, mem_back_succ way edge, ?_, rest⟩
        rw [List.take_succ_cons, List.reverse_cons, List.map_append]
        exact List.rel_append all (.cons suits .nil)

/-- A reduction finds its right-hand side on the stack, above a state that leads on. -/
theorem reduces (furnished : c.Furnished T (f :: below)) (fits : c.Fits g) (firm : c.Firm g)
    (sound : g.Sound) {t : UInt32} {a : Action} (entry : g.entry? f.state t = some a)
    (kind : a.kind = .reduce) :
    ∃ r p base under n target, g.rules[a.aux.toNat]? = some r ∧
      c.productions[a.aux.toNat]? = some p ∧ (f :: below).drop r.length.toNat = base :: under ∧
      g.nonterminals[r.lhs.toNat]? = some n ∧ n.goto? base.state = some target ∧
      ⟨base.state, .nonterminal p.input, target⟩ ∈ c.edges ∧
      List.Forall₂ T p.output (((f :: below).take r.length.toNat).reverse.map Frame.attrs) ∧
      c.Furnished T (base :: under) := by
  obtain ⟨mem, _⟩ := g.mem_entries sound entry (by simp [kind])
  obtain ⟨state, there, action⟩ := Option.bind_eq_some_iff.1 entry
  have declared := (Config.declared_of_action? sound there action (by simp [kind])).1
  have inside := sound.reduce state (Array.mem_of_getElem? there) a declared kind
  obtain ⟨r, rule⟩ : ∃ r, g.rules[a.aux.toNat]? = some r := ⟨_, Array.getElem?_eq_getElem inside⟩
  have production := fits.production a.aux.toNat
  rw [rule, Option.map_some, eq_comm, Option.map_eq_some_iff] at production
  obtain ⟨p, stands, same⟩ := production
  obtain ⟨input, length⟩ := Prod.mk.inj same
  rcases furnished.pop p.output.length with ⟨k, less, way, back, bottom⟩ |
    ⟨base, under, xs, popped, way, all, rest⟩
  · exact absurd bottom (firm.deep _ mem kind p stands k (List.mem_range.2 less) way back)
  · obtain ⟨output, edges⟩ := fits.reduce _ mem kind p stands _ way
    obtain ⟨target, next⟩ := Option.isSome_iff_exists.1 (firm.goto _ mem kind p stands _ way)
    obtain ⟨n, lhs, goto⟩ := Option.bind_eq_some_iff.1 next
    rw [next] at edges
    dsimp only at output
    subst output
    exact ⟨r, p, base, under, n, target, rule, stands, length ▸ popped, input ▸ lhs, goto,
      by simpa using edges, length ▸ all, rest⟩

end Furnished

end GrammarMachine.Chart
