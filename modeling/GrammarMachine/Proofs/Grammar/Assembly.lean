import GrammarMachine.Grammar.Assembly
import GrammarMachine.Proofs.Grammar.Sound
import GrammarMachine.Proofs.Text.Scalar

/-!
Tables put together by hand. Ranges that share no key have one ascending order, so however they are
given the same table comes out, and every look-up in it gives what was asked for.
-/

namespace GrammarMachine

section Order

variable {α β : Type} [LE β] {low high : α → β} {xs ys : List α}

/-- Ranges that are not empty, of which no two share a key. -/
structure Separate (low high : α → β) (xs : List α) : Prop where
  proper : ∀ x ∈ xs, low x ≤ high x
  disjoint : xs.Pairwise fun x y =>
    ∀ key, ¬ ((low x ≤ key ∧ key ≤ high x) ∧ low y ≤ key ∧ key ≤ high y)

theorem Separate.perm (apart : Separate low high xs) (perm : xs.Perm ys) :
    Separate low high ys where
  proper := fun x mem => apart.proper x (perm.mem_iff.2 mem)
  disjoint := perm.pairwise apart.disjoint fun free key both => free key ⟨both.2, both.1⟩

variable [LT β] [Std.IsLinearOrder β] [Std.LawfulOrderLT β]

/-- Of two ranges, one ends before the other begins. -/
theorem Separate.of_lt (proper : ∀ x ∈ xs, low x ≤ high x)
    (separate : xs.Pairwise fun x y => high x < low y ∨ high y < low x) :
    Separate low high xs where
  proper
  disjoint := separate.imp fun
    | .inl before, _, ⟨⟨_, high⟩, low, _⟩ =>
      absurd (Std.lt_of_lt_of_le before (Std.le_trans low high)) Std.lt_irrefl
    | .inr behind, _, ⟨⟨low, _⟩, _, high⟩ =>
      absurd (Std.lt_of_lt_of_le behind (Std.le_trans low high)) Std.lt_irrefl

variable [DecidableLE β]

/-- Of two ranges that share no key, the one that begins first ends before the other begins. -/
theorem Separate.ascending (apart : Separate low high xs) :
    (Ascending.sort low xs).Pairwise fun x y => high x < low y := by
  have sorted := apart.perm (Ascending.sort_perm low xs).symm
  refine ((Ascending.pairwise_sort low xs).and sorted.disjoint).imp_of_mem ?_
  rintro x y _ mem ⟨first, free⟩
  refine Std.not_le.1 fun meet => free (low y) ⟨⟨first, meet⟩, Std.le_refl _, ?_⟩
  exact sorted.proper y mem

theorem Separate.sort_eq (apart : Separate low high xs) (perm : ys.Perm xs) :
    Ascending.sort low ys = Ascending.sort low xs := by
  have given := apart.perm perm.symm
  have same : (Ascending.sort low ys).Perm (Ascending.sort low xs) :=
    (Ascending.sort_perm low ys).trans (perm.trans (Ascending.sort_perm low xs).symm)
  refine List.Perm.eq_of_pairwise ?_ given.ascending apart.ascending same
  intro x y inside inside' before behind
  have proper := given.proper x ((Ascending.sort_perm low ys).mem_iff.1 inside)
  have proper' := apart.proper y ((Ascending.sort_perm low xs).mem_iff.1 inside')
  have around := Std.lt_of_le_of_lt proper (Std.lt_of_lt_of_le before proper')
  exact absurd (Std.lt_trans around behind) Std.lt_irrefl

end Order

namespace ParserState

variable {actions : List Action} {terminal : UInt32}

theorem declared_ofActions (actions : List Action) :
    (ofActions actions).declared.toList = Ascending.sort Action.low actions := by
  simp [ofActions, declared]

theorem back?_ofActions (actions : List Action) :
    (ofActions actions).actions.back? = some .catchAll := by
  simp [ofActions]

theorem mem_declared_ofActions {a : Action} : a ∈ (ofActions actions).declared ↔ a ∈ actions := by
  rw [← Array.mem_toList_iff, declared_ofActions]
  exact (Ascending.sort_perm Action.low actions).mem_iff

/-- An entry that was given is found by the terminals that it covers. -/
theorem action?_ofActions (apart : Separate Action.low Action.high actions) {a : Action}
    (mem : a ∈ actions) (low : a.low ≤ terminal) (high : terminal ≤ a.high) :
    (ofActions actions).action? terminal = some a := by
  refine action?_of_mem ?_ (fun b inside => ?_) (mem_declared_ofActions.2 mem) low high
  · rw [declared_ofActions]
    exact apart.ascending
  · exact apart.proper b (mem_declared_ofActions.1 inside)

/-- A terminal that no entry covers is an error. -/
theorem action?_ofActions_of_uncovered
    (uncovered : ∀ a ∈ actions, ¬ (a.low ≤ terminal ∧ terminal ≤ a.high)) :
    (ofActions actions).action? terminal = some .catchAll := by
  have back := back?_ofActions actions
  unfold action?
  split
  · next a passing =>
    obtain ⟨mem, low⟩ := Search.lastPassing?_eq_some passing
    rw [if_neg fun high => uncovered a (mem_declared_ofActions.1 mem) ⟨of_decide_eq_true low, high⟩]
    exact back
  · exact back

/-- However the entries are given, the same state comes out. -/
theorem ofActions_eq_of_perm (apart : Separate Action.low Action.high actions)
    {actions' : List Action} (perm : actions'.Perm actions) :
    ofActions actions' = ofActions actions := by
  rw [ofActions, ofActions, apart.sort_eq perm]

end ParserState

namespace LexState

variable {recognized : Recognition} {epsilons : List Epsilon}
  {ranges : List (Char × Char × UInt32)} {code : Int32} {last target : UInt32}

/-- The range of codes from one character to another. -/
def rangeOf (range : Char × Char × UInt32) : CharRange :=
  ⟨range.2.2, Text.code range.1, Text.code range.2.1⟩

theorem ranges_ofRanges (recognized : Recognition) (epsilons : List Epsilon)
    (ranges : List (Char × Char × UInt32)) :
    (ofRanges recognized epsilons ranges).ranges.toList =
      Ascending.sort CharRange.low (ranges.map rangeOf) :=
  rfl

/-- Ranges that share no character share no code. -/
theorem apart_codes (apart : Separate Prod.fst (fun r => r.2.1) ranges) :
    Separate CharRange.low CharRange.high (ranges.map rangeOf) where
  proper := by
    intro r mem
    obtain ⟨range, given, rfl⟩ := List.mem_map.1 mem
    exact Text.code_le_code_iff.2 (apart.proper range given)
  disjoint := by
    refine List.pairwise_map.2 (apart.disjoint.imp_of_mem ?_)
    rintro x y inside inside' free key ⟨⟨low, high⟩, low', high'⟩
    have proper := apart.proper x inside
    have proper' := apart.proper y inside'
    -- The later of the two first characters lies in both ranges.
    have meet : x.1 ≤ y.2.1 := Text.code_le_code_iff.1 (Std.le_trans low high')
    have meet' : y.1 ≤ x.2.1 := Text.code_le_code_iff.1 (Std.le_trans low' high)
    rcases Std.le_total (a := x.1) (b := y.1) with first | first
    · exact free y.1 ⟨⟨first, meet'⟩, Std.le_refl _, proper'⟩
    · exact free x.1 ⟨⟨Std.le_refl _, proper⟩, first, meet⟩

theorem mem_ofRanges {r : CharRange} :
    r ∈ (ofRanges recognized epsilons ranges).ranges ↔ ∃ range ∈ ranges, rangeOf range = r := by
  rw [← Array.mem_toList_iff, ranges_ofRanges, (Ascending.sort_perm _ _).mem_iff, List.mem_map]

theorem moves_ofRanges :
    (ofRanges recognized epsilons ranges).Moves code target ↔
      ∃ range ∈ ranges, Text.code range.1 ≤ code ∧ code ≤ Text.code range.2.1 ∧
        range.2.2 = target := by
  constructor
  · rintro ⟨r, mem, low, high, rfl⟩
    obtain ⟨range, given, rfl⟩ := mem_ofRanges.1 mem
    exact ⟨range, given, low, high, rfl⟩
  · rintro ⟨range, given, low, high, rfl⟩
    exact ⟨_, mem_ofRanges.2 ⟨range, given, rfl⟩, low, high, rfl⟩

/-- A code leads to the target of the range that holds it. -/
theorem step?_ofRanges_eq_some_iff (apart : Separate Prod.fst (fun r => r.2.1) ranges) :
    (ofRanges recognized epsilons ranges).step? code = some target ↔
      ∃ range ∈ ranges, Text.code range.1 ≤ code ∧ code ≤ Text.code range.2.1 ∧
        range.2.2 = target := by
  refine Iff.trans ⟨moves_of_step?, step?_of_moves ?_ fun r mem => ?_⟩ moves_ofRanges
  · exact (apart_codes apart).ascending
  · obtain ⟨range, given, rfl⟩ := mem_ofRanges.1 mem
    exact (apart_codes apart).proper _ (List.mem_map_of_mem given)

/-- However the ranges are given, the same state comes out. -/
theorem ofRanges_eq_of_perm (apart : Separate Prod.fst (fun r => r.2.1) ranges)
    {ranges' : List (Char × Char × UInt32)} (perm : ranges'.Perm ranges) :
    ofRanges recognized epsilons ranges' = ofRanges recognized epsilons ranges := by
  have same := (apart_codes apart).sort_eq (perm.map rangeOf)
  exact congrArg (fun rs => LexState.mk recognized epsilons rs.toArray) same

/-- Characters have no negative codes. -/
theorem nonneg_of_mem_ofRanges {r : CharRange}
    (mem : r ∈ (ofRanges recognized epsilons ranges).ranges) : 0 ≤ r.low := by
  obtain ⟨range, _, rfl⟩ := mem_ofRanges.1 mem
  rw [rangeOf, Int32.le_iff_toInt_le, Text.toInt_code]
  exact Int.natCast_nonneg _

section EndOfText

variable {s : LexState}

/-- The end of the text comes in front of all characters. -/
theorem ascending_onEndOfText (ordered : s.ranges.toList.Pairwise fun r r' => r.high < r'.low)
    (chars : ∀ r ∈ s.ranges, 0 ≤ r.low) (last : UInt32) :
    (s.onEndOfText last).ranges.toList.Pairwise fun r r' => r.high < r'.low := by
  refine List.pairwise_cons.2 ⟨fun r mem => ?_, ordered⟩
  exact Std.lt_of_lt_of_le (by decide : endCode < 0) (chars r (Array.mem_toList_iff.1 mem))

theorem moves_onEndOfText :
    (s.onEndOfText last).Moves code target ↔
      (code = endCode ∧ last = target) ∨ s.Moves code target := by
  simp only [Moves, onEndOfText, List.mem_toArray, List.mem_cons, exists_eq_or_imp,
    Array.mem_toList_iff]
  refine or_congr_left ⟨fun ⟨low, high, same⟩ => ⟨Std.le_antisymm high low, same⟩, ?_⟩
  rintro ⟨rfl, same⟩
  exact ⟨Std.le_refl _, Std.le_refl _, same⟩

/-- The end of the text gets a transition, and no code loses or changes its own. -/
theorem step?_onEndOfText (ordered : s.ranges.toList.Pairwise fun r r' => r.high < r'.low)
    (proper : ∀ r ∈ s.ranges, r.low ≤ r.high) (chars : ∀ r ∈ s.ranges, 0 ≤ r.low)
    (last : UInt32) (code : Int32) :
    (s.onEndOfText last).step? code = if code = endCode then some last else s.step? code := by
  have ordered' := ascending_onEndOfText ordered chars last
  have proper' : ∀ r ∈ (s.onEndOfText last).ranges, r.low ≤ r.high := by
    intro r mem
    rcases List.mem_cons.1 (List.mem_toArray.1 mem) with rfl | inside
    · exact Std.le_refl _
    · exact proper r (Array.mem_toList_iff.1 inside)
  have found {target : UInt32} :
      (s.onEndOfText last).step? code = some target ↔ (s.onEndOfText last).Moves code target :=
    ⟨moves_of_step?, step?_of_moves ordered' proper'⟩
  split
  · next ends => exact found.2 (moves_onEndOfText.2 (.inl ⟨ends, rfl⟩))
  · next other =>
    refine Option.ext fun target => found.trans (moves_onEndOfText.trans ?_)
    rw [or_iff_right fun ends => other ends.1]
    exact ⟨step?_of_moves ordered proper, moves_of_step?⟩

end EndOfText

end LexState

namespace Nonterminal

variable {attributes : Nat} {pairs pairs' : List (UInt32 × UInt32)}

theorem gotos_ofPairs (attributes : Nat) (pairs : List (UInt32 × UInt32)) :
    (ofPairs attributes pairs).gotos.toList =
      Ascending.sort Goto.source (pairs.map fun p => ⟨p.1, p.2⟩) :=
  rfl

/-- Pairs with sources of their own. -/
theorem apart_sources (distinct : pairs.Pairwise fun p q => p.1 ≠ q.1) :
    Separate Goto.source Goto.source (pairs.map fun p => ⟨p.1, p.2⟩) where
  proper := fun _ _ => Std.le_refl _
  disjoint := by
    refine List.pairwise_map.2 (distinct.imp fun differ key ⟨same, same'⟩ => differ ?_)
    exact (Std.le_antisymm same.1 same.2).trans (Std.le_antisymm same'.1 same'.2).symm

/-- A source leads where its pair does, also if that is the last pair, which is not searched. -/
theorem goto?_of_ascending {n : Nonterminal}
    (ordered : n.gotos.toList.Pairwise fun pair pair' => pair.source < pair'.source) {pair : Goto}
    (mem : pair ∈ n.gotos) : n.goto? pair.source = some pair.target := by
  have some_pair : n.gotos.toList ≠ [] := List.ne_nil_of_mem (Array.mem_toList_iff.2 mem)
  have split := List.dropLast_concat_getLast some_pair
  generalize n.gotos.toList.getLast some_pair = last at split
  have back : n.gotos.back? = some last := by
    rw [← Array.getLast?_toList, ← split, List.getLast?_concat]
  rw [← split] at ordered
  obtain ⟨front, -, below⟩ := List.pairwise_append.1 ordered
  rw [← Array.toList_pop] at front below
  rw [← Array.mem_toList_iff, ← split, List.mem_append, List.mem_singleton, ← Array.toList_pop,
    Array.mem_toList_iff] at mem
  simp only [goto?, back]
  rcases mem with inside | rfl
  · rw [Search.find?_eq_of_ascending front inside rfl]
  · cases found : Search.find? Goto.source pair.source n.gotos.pop with
    | none => rfl
    | some other =>
      have before := below other (Array.mem_toList_iff.2 (Search.mem_of_find? found)) pair
        (List.mem_singleton_self _)
      rw [Search.key_of_find? found] at before
      exact absurd before Std.lt_irrefl

/-- However the pairs are given, the same nonterminal comes out. -/
theorem ofPairs_eq_of_perm (distinct : pairs.Pairwise fun p q => p.1 ≠ q.1)
    (perm : pairs'.Perm pairs) : ofPairs attributes pairs' = ofPairs attributes pairs := by
  have same := (apart_sources distinct).sort_eq (perm.map fun p => (⟨p.1, p.2⟩ : Goto))
  exact congrArg (fun gotos => Nonterminal.mk (List.replicate attributes 0) gotos.toArray) same

theorem goto?_ofPairs (distinct : pairs.Pairwise fun p q => p.1 ≠ q.1) {p : UInt32 × UInt32}
    (mem : p ∈ pairs) : (ofPairs attributes pairs).goto? p.1 = some p.2 := by
  have inside : (⟨p.1, p.2⟩ : Goto) ∈ (ofPairs attributes pairs).gotos := by
    rw [← Array.mem_toList_iff, gotos_ofPairs, (Ascending.sort_perm _ _).mem_iff]
    exact List.mem_map_of_mem mem
  exact goto?_of_ascending (apart_sources distinct).ascending inside

end Nonterminal

/-- Entries, ranges and pairs may be given in any order, as long as no two of them share a terminal,
a character or a source: the same table comes out, in ascending order, and each is found by the keys
that it covers. What none covers is an error for a parser state and no step for a lexical one, to
which the end of the text may be added without any other change. -/
theorem assembly_serves_every_order :
    (∀ actions : List Action, Separate Action.low Action.high actions →
      (∀ actions', actions'.Perm actions →
        ParserState.ofActions actions' = ParserState.ofActions actions) ∧
      (ParserState.ofActions actions).declared.toList.Pairwise (fun a a' => a.high < a'.low) ∧
      (ParserState.ofActions actions).actions.back? = some .catchAll ∧
      ∀ terminal,
        (∀ a ∈ actions, a.low ≤ terminal → terminal ≤ a.high →
          (ParserState.ofActions actions).action? terminal = some a) ∧
        ((∀ a ∈ actions, ¬ (a.low ≤ terminal ∧ terminal ≤ a.high)) →
          (ParserState.ofActions actions).action? terminal = some .catchAll)) ∧
    (∀ (recognized : Recognition) (epsilons : List Epsilon)
        (ranges : List (Char × Char × UInt32)), Separate Prod.fst (fun r => r.2.1) ranges →
      let s := LexState.ofRanges recognized epsilons ranges
      (∀ ranges', ranges'.Perm ranges → LexState.ofRanges recognized epsilons ranges' = s) ∧
      (∀ code target, s.step? code = some target ↔
        ∃ r ∈ ranges, Text.code r.1 ≤ code ∧ code ≤ Text.code r.2.1 ∧ r.2.2 = target) ∧
      ∀ last,
        (s.onEndOfText last).ranges.toList.Pairwise (fun r r' => r.high < r'.low) ∧
        ∀ code, (s.onEndOfText last).step? code =
          if code = endCode then some last else s.step? code) ∧
    ∀ (attributes : Nat) (pairs : List (UInt32 × UInt32)),
      pairs.Pairwise (fun p q => p.1 ≠ q.1) →
      (∀ pairs', pairs'.Perm pairs →
        Nonterminal.ofPairs attributes pairs' = Nonterminal.ofPairs attributes pairs) ∧
      ∀ p ∈ pairs, (Nonterminal.ofPairs attributes pairs).goto? p.1 = some p.2 := by
  refine ⟨fun actions apart => ?_, fun recognized epsilons ranges apart => ?_,
    fun attributes pairs distinct => ?_⟩
  · refine ⟨fun _ => ParserState.ofActions_eq_of_perm apart, ?_,
      ParserState.back?_ofActions actions,
      fun terminal => ⟨fun a mem => ParserState.action?_ofActions apart mem,
        ParserState.action?_ofActions_of_uncovered⟩⟩
    rw [ParserState.declared_ofActions]
    exact apart.ascending
  · have ordered := (LexState.apart_codes apart).ascending
    have proper : ∀ r ∈ (LexState.ofRanges recognized epsilons ranges).ranges, r.low ≤ r.high := by
      intro r mem
      obtain ⟨range, given, rfl⟩ := LexState.mem_ofRanges.1 mem
      exact (LexState.apart_codes apart).proper _ (List.mem_map_of_mem given)
    refine ⟨fun _ => LexState.ofRanges_eq_of_perm apart,
      fun _ _ => LexState.step?_ofRanges_eq_some_iff apart, fun last => ⟨?_, ?_⟩⟩
    · exact LexState.ascending_onEndOfText ordered (fun _ => LexState.nonneg_of_mem_ofRanges) last
    · exact LexState.step?_onEndOfText ordered proper (fun _ => LexState.nonneg_of_mem_ofRanges)
        last
  · exact ⟨fun _ => Nonterminal.ofPairs_eq_of_perm distinct,
      fun _ => Nonterminal.goto?_ofPairs distinct⟩

/-- Tables given back to front. -/
theorem backward_tables_are_served :
    (ParserState.ofActions [.shift 3 5 1, .reduce 0 2 7]).action? 4 = some (.shift 3 5 1) ∧
    (ParserState.ofActions [.shift 3 5 1, .reduce 0 2 7]).action? 6 = some .catchAll ∧
    ((LexState.ofRanges .nothing [] [('x', 'z', 2), ('a', 'c', 1)]).onEndOfText 3).step?
      (Text.code 'b') = some 1 ∧
    (Nonterminal.ofPairs 1 [(4, 1), (2, 9)]).goto? 4 = some 1 := by
  obtain ⟨states, lexical, nonterminals⟩ := assembly_serves_every_order
  obtain ⟨-, -, -, found⟩ := states [.shift 3 5 1, .reduce 0 2 7]
    (.of_lt (by decide) (by decide))
  obtain ⟨-, steps, ending⟩ := lexical .nothing [] [('x', 'z', 2), ('a', 'c', 1)]
    (.of_lt (by decide) (by decide))
  obtain ⟨-, leads⟩ := nonterminals 1 [(4, 1), (2, 9)] (by decide)
  refine ⟨(found 4).1 _ (by decide) (by decide) (by decide), (found 6).2 (by decide), ?_,
    leads (4, 1) (by decide)⟩
  rw [(ending 3).2, if_neg (by decide)]
  exact (steps _ _).2 ⟨('a', 'c', 1), by decide, by decide, by decide, rfl⟩

end GrammarMachine
