import GrammarMachine.Proofs.Grammar.WellFormed

/-!
What a checked grammar promises to those who run it: every number that a state, a rule, a pair or a
recovery entry holds names something that is there. Found entries are entries, whatever order the
table is in, so the promises carry over to look-ups.
-/

namespace GrammarMachine

namespace Search

variable {α : Type} {xs : Array α} {x : α}

theorem passes_narrow (passes : Nat → Bool) (fuel base size : Nat) :
    narrow passes fuel base size = base ∨ passes (narrow passes fuel base size) = true := by
  induction fuel generalizing base size with
  | zero => exact .inl rfl
  | succ fuel ih =>
    simp only [narrow]
    split
    · exact .inl rfl
    · by_cases upper : passes (base + size / 2) = true
      · rw [if_pos upper]
        rcases ih (base + size / 2) (size - size / 2) with kept | passed
        · exact .inr (by rw [kept, upper])
        · exact .inr passed
      · rw [if_neg upper]
        exact ih base (size - size / 2)

theorem lastPassing?_eq_some {test : α → Bool} (found : lastPassing? test xs = some x) :
    x ∈ xs ∧ test x = true := by
  unfold lastPassing? at found
  split at found
  · cases found
  · next i point =>
    refine ⟨Array.mem_of_getElem? found, ?_⟩
    have landed : landing test xs = 0 ∨ passesAt test xs (landing test xs) = true :=
      passes_narrow (passesAt test xs) xs.size 0 xs.size
    -- Behind place zero the search stands only where the test holds.
    have passing : passesAt test xs i = true := by
      simp only [partitionPoint] at point
      by_cases here : passesAt test xs (landing test xs) = true
      · rw [if_pos here] at point
        rwa [Nat.succ.inj point] at here
      · rw [if_neg here] at point
        have zero := landed.resolve_right here
        omega
    simpa only [passesAt, found] using passing

/-- If the entries that pass stand in front, the search stops on the last of them. -/
theorem not_passes_of_narrow_lt {passes : Nat → Bool}
    (front : ∀ i j, i ≤ j → passes j = true → passes i = true) {fuel base size : Nat}
    (enough : size ≤ fuel) (none : ∀ j, base + size ≤ j → passes j = false) :
    ∀ j, narrow passes fuel base size < j → passes j = false := by
  induction fuel generalizing base size with
  | zero =>
    intro j beyond
    rw [narrow] at beyond
    exact none j (by omega)
  | succ fuel ih =>
    simp only [narrow]
    split
    · intro j beyond
      exact none j (by omega)
    · by_cases upper : passes (base + size / 2) = true
      · rw [if_pos upper]
        exact ih (by omega) fun j beyond => none j (by omega)
      · rw [if_neg upper]
        refine ih (by omega) fun j beyond => ?_
        rw [← Bool.not_eq_true]
        exact fun later => upper (front _ j (by omega) later)

/-- The last entry that passes, where those that do stand in front. -/
theorem lastPassing?_eq_of_last {test : α → Bool} {i : Nat}
    (front : ∀ i j, i ≤ j → passesAt test xs j = true → passesAt test xs i = true)
    (here : xs[i]? = some x) (passing : test x = true)
    (last : passesAt test xs (i + 1) = false) : lastPassing? test xs = some x := by
  have at_i : passesAt test xs i = true := by simpa [passesAt, here] using passing
  have beyond : ∀ j, landing test xs < j → passesAt test xs j = false := by
    refine not_passes_of_narrow_lt front (Nat.le_refl _) fun j outside => ?_
    simp only [passesAt, Array.getElem?_eq_none (by omega : xs.size ≤ j)]
  have landed : landing test xs = i := by
    rcases Nat.lt_trichotomy (landing test xs) i with before | same | after
    · rw [beyond i before] at at_i
      cases at_i
    · exact same
    · rcases passes_narrow (passesAt test xs) xs.size 0 xs.size with zero | passes
      · change landing test xs = 0 at zero
        omega
      · have next := front (i + 1) (landing test xs) after passes
        rw [last] at next
        cases next
  simp only [lastPassing?, partitionPoint, landed, at_i, if_true, here]

section Ascending

variable {β : Type} [LE β] [LT β] [DecidableLE β] [Std.IsLinearOrder β] [Std.LawfulOrderLT β]
  {low high : α → β} {key : β}

/-- Among ranges in ascending order, the last that begins at a key or in front of it is the one that
holds the key. -/
theorem lastPassing?_eq_of_ascending (ordered : xs.toList.Pairwise fun x y => high x < low y)
    (proper : ∀ x ∈ xs, low x ≤ high x) (mem : x ∈ xs) (above : low x ≤ key)
    (below : key ≤ high x) : lastPassing? (fun y => decide (low y ≤ key)) xs = some x := by
  obtain ⟨i, here⟩ := Array.mem_iff_getElem?.1 mem
  have apart : ∀ {i j : Nat} {y z : α}, i < j → xs[i]? = some y → xs[j]? = some z →
      high y < low z := by
    intro i j y z lt at_i at_j
    obtain ⟨inside, rfl⟩ := Array.getElem?_eq_some_iff.1 at_i
    obtain ⟨inside', rfl⟩ := Array.getElem?_eq_some_iff.1 at_j
    have pair := List.pairwise_iff_getElem.1 ordered i j inside inside' lt
    rwa [Array.getElem_toList, Array.getElem_toList] at pair
  refine lastPassing?_eq_of_last (i := i) (fun i j le passes => ?_) here (by simpa using above) ?_
  · rcases Nat.eq_or_lt_of_le le with rfl | lt
    · exact passes
    · unfold passesAt at passes ⊢
      split at passes
      · next z at_j =>
        have at_i := Array.getElem?_eq_getElem
          (Nat.lt_trans lt (Array.getElem?_eq_some_iff.1 at_j).1)
        have begins := Std.le_of_lt (Std.lt_of_le_of_lt
          (proper _ (Array.mem_of_getElem? at_i)) (apart lt at_i at_j))
        rw [at_i]
        exact decide_eq_true (Std.le_trans begins (of_decide_eq_true passes))
      · cases passes
  · unfold passesAt
    split
    · next z at_next =>
      have behind := Std.lt_of_le_of_lt below (apart (Nat.lt_succ_self i) here at_next)
      exact decide_eq_false (Std.not_le.2 behind)
    · rfl

end Ascending

theorem mem_of_find? {keyOf : α → UInt32} {key : UInt32} (found : find? keyOf key xs = some x) :
    x ∈ xs := by
  unfold find? at found
  split at found
  · next entry reached =>
    split at found
    · cases found
      exact Array.mem_of_getElem? reached
    · cases found
  · cases found

theorem key_of_find? {keyOf : α → UInt32} {key : UInt32} (found : find? keyOf key xs = some x) :
    keyOf x = key := by
  unfold find? at found
  split at found
  · split at found
    · next same =>
      cases found
      exact same
    · cases found
  · cases found

/-- The search for the last entry that passes ends where the search for a key looks. -/
theorem lastPassing?_of_landing {test : α → Bool} (found : lastPassing? test xs = some x) :
    xs[landing test xs]? = some x := by
  unfold lastPassing? partitionPoint at found
  by_cases here : passesAt test xs (landing test xs) = true
  · simpa only [here, if_true] using found
  · have zero : landing test xs = 0 := (passes_narrow _ _ _ _).resolve_right here
    rw [zero] at here
    simp [zero, here] at found

/-- Among entries in ascending order, the one with a key is found. -/
theorem find?_eq_of_ascending {keyOf : α → UInt32} {key : UInt32}
    (ordered : xs.toList.Pairwise fun x y => keyOf x < keyOf y) (mem : x ∈ xs)
    (same : keyOf x = key) : find? keyOf key xs = some x := by
  have found := lastPassing?_eq_of_ascending ordered (fun y _ => UInt32.le_refl (keyOf y)) mem
    (UInt32.le_of_eq same) (UInt32.le_of_eq same.symm)
  rw [find?, lastPassing?_of_landing found]
  exact if_pos same

end Search

/-- The state has a transition to `target` on `code`. -/
def LexState.Moves (s : LexState) (code : Int32) (target : UInt32) : Prop :=
  ∃ r ∈ s.ranges, r.low ≤ code ∧ code ≤ r.high ∧ r.target = target

theorem LexState.moves_of_step? {s : LexState} {code : Int32} {target : UInt32}
    (found : s.step? code = some target) : s.Moves code target := by
  unfold step? at found
  split at found
  · next r passing =>
    obtain ⟨mem, low⟩ := Search.lastPassing?_eq_some passing
    split at found
    · next high =>
      cases found
      exact ⟨r, mem, of_decide_eq_true low, high, rfl⟩
    · cases found
  · cases found

/-- Among ranges in ascending order without overlap, the one that holds a code is found. -/
theorem LexState.step?_of_moves {s : LexState} {code : Int32} {target : UInt32}
    (ordered : s.ranges.toList.Pairwise fun r r' => r.high < r'.low)
    (proper : ∀ r ∈ s.ranges, r.low ≤ r.high) (moves : s.Moves code target) :
    s.step? code = some target := by
  obtain ⟨r, mem, low, high, rfl⟩ := moves
  have found := Search.lastPassing?_eq_of_ascending ordered proper mem low high
  simp only [step?, found, high, if_true]

/-- The entry found for a terminal covers it, unless it is the one that catches all else. -/
theorem ParserState.mem_of_action? {s : ParserState} {terminal : UInt32} {a : Action}
    (found : s.action? terminal = some a) :
    (a ∈ s.declared ∧ a.low ≤ terminal ∧ terminal ≤ a.high) ∨ s.actions.back? = some a := by
  unfold action? at found
  split at found
  · next entry passing =>
    obtain ⟨mem, low⟩ := Search.lastPassing?_eq_some passing
    split at found
    · next high =>
      cases found
      exact .inl ⟨mem, of_decide_eq_true low, high⟩
    · exact .inr found
  · exact .inr found

/-- Among entries in ascending order without overlap, the one that covers a terminal is found. -/
theorem ParserState.action?_of_mem {s : ParserState} {terminal : UInt32} {a : Action}
    (ordered : s.declared.toList.Pairwise fun a a' => a.high < a'.low)
    (proper : ∀ a ∈ s.declared, a.low ≤ a.high) (mem : a ∈ s.declared) (low : a.low ≤ terminal)
    (high : terminal ≤ a.high) : s.action? terminal = some a := by
  have found := Search.lastPassing?_eq_of_ascending ordered proper mem low high
  simp only [action?, found, high, if_true]

theorem Nonterminal.mem_of_goto? {n : Nonterminal} {source target : UInt32}
    (found : n.goto? source = some target) : ∃ pair ∈ n.gotos, pair.target = target := by
  unfold goto? at found
  split at found
  · cases found
  · next last back =>
    split at found
    · next pair inside =>
      cases found
      have mem := Array.mem_toList_iff.2 (Search.mem_of_find? inside)
      rw [Array.toList_pop] at mem
      exact ⟨pair, Array.mem_toList_iff.1 ((List.dropLast_sublist _).subset mem), rfl⟩
    · cases found
      exact ⟨last, Array.mem_of_back? back, rfl⟩

/-- Every transition of the automaton leads to one of its states and is found by its codes. -/
structure Automaton.Closed (a : Automaton) : Prop where
  epsilon : ∀ s ∈ a.states, ∀ e ∈ s.epsilons, e.target.toNat < a.states.size
  continuation : ∀ s ∈ a.states, ∀ e ∈ s.epsilons, ∀ root, e.continuation = some root →
    root.toNat < a.states.size
  range : ∀ s ∈ a.states, ∀ r ∈ s.ranges, r.target.toNat < a.states.size
  found : ∀ s ∈ a.states, ∀ code target, s.step? code = some target ↔ s.Moves code target

/-- What is promised of a grammar's numbers. -/
structure Grammar.Sound (g : Grammar) : Prop where
  tokens : 0 < g.tokens.size
  lexer : g.lexer.Closed
  lexer_root : 0 < g.lexer.states.size
  comments : g.comments.Closed
  comments_root : ∀ s ∈ g.lexer.states, s.recognized = .commentStart → 0 < g.comments.states.size
  root : 0 < g.states.size
  catchAll : ∀ s ∈ g.states, ∃ last, s.actions.back? = some last ∧ last.kind = .error
  shift : ∀ s ∈ g.states, ∀ a ∈ s.declared, a.kind = .shift → a.aux.toNat < g.states.size
  reduce : ∀ s ∈ g.states, ∀ a ∈ s.declared, a.kind = .reduce → a.aux.toNat < g.rules.size
  goto : ∀ n ∈ g.nonterminals, ∀ pair ∈ n.gotos, pair.target.toNat < g.states.size
  lhs : ∀ r ∈ g.rules, r.lhs.toNat < g.nonterminals.size
  copy : ∀ r ∈ g.rules, ∀ a ∈ r.actions, a.isCopy = true → a.params.length = 1
  recovery : ∀ r ∈ g.recoveries, ∀ e ∈ r.entries, e.nonterminal.toNat < g.nonterminals.size

theorem Automaton.WellFormed.closed {a : Automaton} {part : Part} {tokens : Nat}
    (formed : a.WellFormed part tokens) : a.Closed where
  epsilon := fun s mem => (formed s mem).epsilon
  continuation := fun s mem e inside root next => ((formed s mem).continuation e inside root next).1
  range := fun s mem => (formed s mem).target
  found := fun s mem _ _ =>
    ⟨LexState.moves_of_step?, LexState.step?_of_moves (formed s mem).apart (formed s mem).proper⟩

theorem Automaton.closed_of_check {a : Automaton} {part : Part} {tokens : Nat}
    (passed : a.check part tokens = .ok ()) : a.Closed :=
  (check_eq_ok_iff.1 passed).closed

theorem Grammar.WellFormed.sound {g : Grammar} (formed : g.WellFormed) : g.Sound where
  tokens := formed.tokens
  lexer := formed.lexer.closed
  lexer_root := formed.lexer_root
  comments := formed.comments.closed
  comments_root := formed.comments_root
  root := formed.root
  catchAll := fun s mem => (formed.states s mem).catchAll
  shift := fun s mem => (formed.states s mem).shift
  reduce := fun s mem => (formed.states s mem).reduce
  goto := fun n mem => (formed.nonterminals n mem).target
  lhs := fun r mem => (formed.rules r mem).lhs
  copy := fun r mem => (formed.rules r mem).copy
  recovery := fun r mem => (formed.recoveries r mem).nonterminal

theorem Grammar.sound_of_check {g : Grammar} (valid : g.check = .ok ()) : g.Sound :=
  (wellFormed_of_check valid).sound

end GrammarMachine
