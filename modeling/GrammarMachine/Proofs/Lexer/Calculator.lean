import GrammarMachine.Proofs.Lexer.Walks
import GrammarMachine.Proofs.Parse.Safety

/-!
What the calculator's automata match, as functions of the characters ahead. Blanks and digits are
matched in runs, signs and marks of comments on their own, and nothing else is matched.
-/

namespace GrammarMachine

/-- Some range holds the character. -/
def LexState.covers (ranges : List (Char × Char × UInt32)) (c : Char) : Bool :=
  ranges.any fun r => r.1 ≤ c && c ≤ r.2.1

/-- No transition is taken on a character outside the ranges, or where the text ends. -/
theorem LexState.not_moves_codes {recognized : Recognition} {epsilons : List Epsilon}
    {ranges : List (Char × Char × UInt32)} {target : UInt32} {null : Bool} {cs : List Char}
    (ended : covers ranges '\x00' = false) (outside : ∀ c ∈ cs.head?, covers ranges c = false) :
    ¬(ofRanges recognized epsilons ranges).Moves (Automaton.codes null cs 0) target := by
  have uncovered : ∀ {c : Char}, covers ranges c = false →
      ¬(ofRanges recognized epsilons ranges).Moves (Text.code c) target := by
    intro c none
    rw [moves_ofRanges_iff]
    rintro ⟨r, mem, low, high, _⟩
    rw [covers, List.any_eq_false] at none
    exact none r mem (by simpa using ⟨low, high⟩)
  cases cs with
  | nil =>
    cases null with
    | false => exact not_moves_ofRanges_end
    | true => exact uncovered ended
  | cons c cs => exact uncovered (outside c rfl)

theorem LexState.covers_single (c d : Char) (target : UInt32) :
    covers [(c, c, target)] d = decide (d = c) := by
  by_cases same : d = c
  · subst same
    simp [covers]
  · have apart : ¬(c ≤ d ∧ d ≤ c) := fun both => same (Char.le_antisymm both.2 both.1)
    simpa [covers, same] using apart

/-- A character in some of the ranges is led where those lead. -/
theorem LexState.moves_of_covers {recognized : Recognition} {epsilons : List Epsilon}
    {ranges some : List (Char × Char × UInt32)} {target : UInt32} {c : Char}
    (inside : covers some c = true) (among : some ⊆ ranges) (targets : ∀ r ∈ some, r.2.2 = target) :
    (ofRanges recognized epsilons ranges).Moves (Text.code c) target := by
  obtain ⟨r, mem, bounds⟩ := List.any_eq_true.1 inside
  rw [Bool.and_eq_true, decide_eq_true_eq, decide_eq_true_eq] at bounds
  exact (moves_ofRanges_iff c).2 ⟨r, among mem, bounds.1, bounds.2, targets r mem⟩

namespace Samples.Calculator

/-- The signs that stand for themselves. -/
def sign? (c : Char) : Option UInt32 :=
  if c = '(' then some openParen
  else if c = ')' then some closeParen
  else if c = '*' then some star
  else if c = '+' then some plus
  else none

def isBlank (c : Char) : Bool := LexState.covers blanks c

/-- What the lexer matches, the characters matched and those behind them. -/
def munch : List Char → Option (Recognition × List Char × List Char)
  | [] => none
  | c :: cs =>
    if isBlank c then some (.token blank, c :: cs.takeWhile isBlank, cs.dropWhile isBlank)
    else if c.isDigit then
      some (.token number, c :: cs.takeWhile Char.isDigit, cs.dropWhile Char.isDigit)
    else if c = '*' ∧ cs.head? = some '/' then some (.commentEnd, [c, '/'], cs.tail)
    else if c = '/' ∧ cs.head? = some '*' then some (.commentStart, [c, '*'], cs.tail)
    else (sign? c).map fun id => (.token id, [c], cs)

/-- The mark of a comment in front, and the characters behind it. -/
def mark : List Char → Option (UInt32 × List Char)
  | [] => none
  | c :: cs =>
    if c = '*' ∧ cs.head? = some '/' then some (commentClose, cs.tail)
    else if c = '/' ∧ cs.head? = some '*' then some (commentBegin, cs.tail)
    else none

variable {null : Bool} {c : Char} {cs : List Char}

theorem lexer_plain : ∀ s ∈ lexer.states, s.epsilons = [] := by decide +kernel

theorem comments_plain : ∀ s ∈ comments.states, s.epsilons = [] := by decide +kernel

theorem closed_lexer : lexer.Closed := (Grammar.sound_of_check (check_grammar .hard)).lexer

theorem closed_comments : comments.Closed := (Grammar.sound_of_check (check_grammar .hard)).comments

/-- The ranges of digits, which lead to the state of numbers. -/
def digits : List (Char × Char × UInt32) := [('0', '9', 7)]

theorem isDigit_eq : c.isDigit = LexState.covers digits c := by
  simp [Char.isDigit, LexState.covers, digits, Char.le_def, ge_iff_le]

/-- The scan of an automaton in front of `cs` answers with these characters. -/
structure Munched (a : Automaton) (null : Bool) (cs : List Char) (r : Recognition)
    (p rest : List Char) : Prop where
  whole : cs = p ++ rest
  letters : '\x00' ∉ p
  nonempty : p ≠ []
  answers : a.Answers (Automaton.codes null cs) 0 (some ⟨r, p.length⟩)

theorem munched_of_walks {a : Automaton} (closed : a.Closed)
    (plain : ∀ s ∈ a.states, s.epsilons = []) {p rest : List Char} {id : UInt32} {s : LexState}
    {k : Nat} (letters : '\x00' ∉ p) (nonempty : p ≠ []) (walks : a.Walks 0 p id)
    (here : a.states[id.toNat]? = some s)
    (stops : ∀ target, ¬s.Moves (Automaton.codes null rest 0) target)
    (priority : s.recognized.priority? = some k) :
    Munched a null (p ++ rest) s.recognized p rest :=
  ⟨rfl, letters, nonempty,
    Automaton.answers_of_walks closed plain letters walks here stops priority⟩

/-- A state that is kept over all characters of a class matches a run of them. -/
theorem munched_run {a : Automaton} (closed : a.Closed) (plain : ∀ s ∈ a.states, s.epsilons = [])
    (id : UInt32) {f : Char → Bool} {s : LexState} {k : Nat} (first : a.Walks 0 [c] id)
    (ended : f '\x00' = false) (inside : f c = true) (here : a.states[id.toNat]? = some s)
    (loops : ∀ d, f d = true → s.Moves (Text.code d) id)
    (stops : ∀ rest, (∀ d ∈ rest.head?, f d = false) → ∀ target,
      ¬s.Moves (Automaton.codes null rest 0) target)
    (priority : s.recognized.priority? = some k) :
    Munched a null (c :: cs) s.recognized (c :: cs.takeWhile f) (cs.dropWhile f) := by
  have all : ∀ d ∈ c :: cs.takeWhile f, f d = true :=
    List.forall_mem_cons.2 ⟨inside, List.all_eq_true.1 List.all_takeWhile⟩
  have letters : '\x00' ∉ c :: cs.takeWhile f := by
    intro mem
    rw [all _ mem] at ended
    cases ended
  have walks : a.Walks 0 (c :: cs.takeWhile f) id :=
    first.append_loop here fun d mem => loops d (all d (List.mem_cons_of_mem _ mem))
  have behind : ∀ d ∈ (cs.dropWhile f).head?, f d = false := by
    intro d mem
    have last := List.head?_dropWhile_not f cs
    rw [Option.mem_def.1 mem] at last
    simpa using last
  have munched := munched_of_walks closed plain letters (List.cons_ne_nil _ _) walks here
    (stops _ behind) priority
  rwa [List.cons_append, List.takeWhile_append_dropWhile] at munched

/-- The first step of the lexer. -/
theorem walks_first (target : UInt32)
    (moves : (LexState.ofRanges .nothing [] (blanks ++ [('(', '(', 2), (')', ')', 3), ('*', '*', 4),
      ('+', '+', 5), ('/', '/', 6), ('0', '9', 7)])).Moves (Text.code c) target) :
    lexer.Walks 0 [c] target :=
  .snoc .nil rfl moves

theorem munched_munch (null : Bool) {r : Recognition} {p rest : List Char}
    (found : munch cs = some (r, p, rest)) :
    Munched lexer null cs r p rest := by
  unfold munch at found
  split at found
  · cases found
  next c cs =>
  split at found
  · next inside =>
    cases found
    refine munched_run closed_lexer lexer_plain 1 (f := isBlank)
      (s := .ofRanges (.token blank) [] blanks)
      (walks_first _ (LexState.moves_of_covers inside ?_ (by decide))) (by decide) inside rfl ?_ ?_
      rfl
    · exact List.subset_append_left _ _
    · exact fun d inside => LexState.moves_of_covers inside (List.Subset.refl _) (by decide)
    · exact fun rest behind target => LexState.not_moves_codes (by decide) behind
  split at found
  · next inside =>
    cases found
    refine munched_run closed_lexer lexer_plain 7 (f := Char.isDigit)
      (s := .ofRanges (.token number) [] digits)
      (walks_first _
        (LexState.moves_of_covers (isDigit_eq.symm.trans inside) (by decide) (by decide)))
      (by decide) inside rfl ?_ ?_ rfl
    · exact fun d inside => LexState.moves_of_covers (isDigit_eq.symm.trans inside)
        (List.Subset.refl _) (by decide)
    · exact fun rest behind target => LexState.not_moves_codes (by decide) fun d mem =>
        isDigit_eq.symm.trans (behind d mem)
  split at found
  · next both =>
    obtain ⟨rfl, next⟩ := both
    cases found
    obtain ⟨rest, rfl⟩ := List.head?_eq_some_iff.1 next
    have walks : lexer.Walks 0 ['*', '/'] 9 :=
      (walks_first 4 ((LexState.moves_ofRanges_iff _).2 (by decide))).snoc
        (s := .ofRanges (.token star) [] [('/', '/', 9)]) rfl
        ((LexState.moves_ofRanges_iff _).2 (by decide))
    exact munched_of_walks closed_lexer lexer_plain (by decide) (by decide) walks
      (s := .ofRanges .commentEnd [] []) rfl (fun _ => LexState.not_moves_codes rfl fun _ _ => rfl)
      rfl
  split at found
  · next both =>
    obtain ⟨rfl, next⟩ := both
    cases found
    obtain ⟨rest, rfl⟩ := List.head?_eq_some_iff.1 next
    have walks : lexer.Walks 0 ['/', '*'] 8 :=
      (walks_first 6 ((LexState.moves_ofRanges_iff _).2 (by decide))).snoc
        (s := .ofRanges .nothing [] [('*', '*', 8)]) rfl
        ((LexState.moves_ofRanges_iff _).2 (by decide))
    exact munched_of_walks closed_lexer lexer_plain (by decide) (by decide) walks
      (s := .ofRanges .commentStart [] []) rfl
      (fun _ => LexState.not_moves_codes rfl fun _ _ => rfl) rfl
  next single _ =>
  -- A sign is matched on its own; only behind a star there is a transition, on the other half of
  -- the mark.
  obtain ⟨id, sign, same⟩ := Option.map_eq_some_iff.1 found
  cases same
  have signs : ∃ q ranges, lexer.Walks 0 [c] q ∧
      lexer.states[q.toNat]? = some (.ofRanges (.token id) [] ranges) ∧
      LexState.covers ranges '\x00' = false ∧
      ∀ d ∈ rest.head?, LexState.covers ranges d = false := by
    unfold sign? at sign
    split_ifs at sign with left right star plus <;> cases sign <;> subst c
    · exact ⟨2, [], walks_first _ ((LexState.moves_ofRanges_iff _).2 (by decide)), rfl, rfl,
        fun _ _ => rfl⟩
    · exact ⟨3, [], walks_first _ ((LexState.moves_ofRanges_iff _).2 (by decide)), rfl, rfl,
        fun _ _ => rfl⟩
    · refine ⟨4, [('/', '/', 9)], walks_first _ ((LexState.moves_ofRanges_iff _).2 (by decide)),
        rfl, by decide, fun d mem => ?_⟩
      have other : d ≠ '/' := fun same => single ⟨rfl, same ▸ mem⟩
      rw [LexState.covers_single, decide_eq_false other]
    · exact ⟨5, [], walks_first _ ((LexState.moves_ofRanges_iff _).2 (by decide)), rfl, rfl,
        fun _ _ => rfl⟩
  obtain ⟨q, ranges, walks, here, ended, outside⟩ := signs
  have letter : '\x00' ∉ [c] := by
    rintro mem
    cases List.mem_singleton.1 mem
    cases sign
  exact munched_of_walks closed_lexer lexer_plain letter (List.cons_ne_nil _ _) walks here
    (fun _ => LexState.not_moves_codes ended outside) rfl

/-- Characters on which the first state of the lexer has no transition. -/
theorem not_covers_first {d : Char} (nothing : munch (d :: cs) = none) (other : d ≠ '/') :
    LexState.covers (blanks ++ [('(', '(', 2), (')', ')', 3), ('*', '*', 4), ('+', '+', 5),
      ('/', '/', 6), ('0', '9', 7)]) d = false := by
  have append : ∀ rs rs' : List (Char × Char × UInt32),
      LexState.covers (rs ++ rs') d = (LexState.covers rs d || LexState.covers rs' d) :=
    fun rs rs' => List.any_append
  have pass : ∀ {c : Char} {target : UInt32} {rs : List (Char × Char × UInt32)}, d ≠ c →
      LexState.covers ((c, c, target) :: rs) d = LexState.covers rs d := by
    intro c target rs other
    rw [← List.singleton_append, append, LexState.covers_single, decide_eq_false other,
      Bool.false_or]
  rw [munch] at nothing
  split_ifs at nothing with blank digit
  have unsigned := Option.map_eq_none_iff.1 nothing
  unfold sign? at unsigned
  split_ifs at unsigned with left right star plus
  have nondigit : LexState.covers [('0', '9', 7)] d = false :=
    isDigit_eq.symm.trans (Bool.not_eq_true _ ▸ digit)
  have nonblank : LexState.covers blanks d = false := Bool.not_eq_true _ ▸ blank
  rw [append, nonblank, Bool.false_or, pass left, pass right, pass star, pass plus, pass other]
  exact nondigit

theorem answers_none_of_munch (nothing : munch cs = none) :
    lexer.Answers (Automaton.codes null cs) 0 none := by
  have silent : ∀ {p : List Char} {id id' : UInt32} {s' : LexState}, lexer.Walks 0 p id →
      lexer.Walks 0 p id' → lexer.states[id'.toNat]? = some s' → ∀ {ranges},
      lexer.states[id.toNat]? = some (.ofRanges .nothing [] ranges) →
      s'.recognized.priority? = none := by
    intro p id id' s' first second there ranges here
    obtain rfl := first.unique closed_lexer second
    cases here.symm.trans there
    rfl
  have start : ∀ {id' s'}, lexer.Walks 0 [] id' → lexer.states[id'.toNat]? = some s' →
      s'.recognized.priority? = none := fun walks there => silent .nil walks there rfl
  -- Nothing is matched from the first state, nor behind a slash that no star follows.
  by_cases slash : cs.head? = some '/'
  · obtain ⟨rest, rfl⟩ := List.head?_eq_some_iff.1 slash
    have other : ∀ d ∈ rest.head?, LexState.covers [('*', '*', 8)] d = false := by
      intro d mem
      rw [LexState.covers_single]
      refine decide_eq_false fun same => ?_
      subst same
      have found : munch ('/' :: rest) = some (.commentStart, ['/', '*'], rest.tail) := by
        simp [munch, Option.mem_def.1 mem, show isBlank '/' = false by decide]
      cases nothing.symm.trans found
    have walks : lexer.Walks 0 ['/'] 6 :=
      walks_first 6 ((LexState.moves_ofRanges_iff _).2 (by decide))
    refine Automaton.answers_none_of_walks closed_lexer lexer_plain (p := ['/']) (by decide) walks
      (s := .ofRanges .nothing [] [('*', '*', 8)]) rfl
      (fun _ => LexState.not_moves_codes (by decide) other) ?_
    rintro (_ | i) id' s' walks' there
    · exact start walks' there
    · exact silent walks (by simpa using walks') there rfl
  · refine Automaton.answers_none_of_walks closed_lexer lexer_plain (p := []) (by simp) .nil rfl
      (fun _ => LexState.not_moves_codes (by decide) fun d mem => ?_)
      fun i id' s' walks' there => ?_
    · obtain ⟨rest, rfl⟩ := List.head?_eq_some_iff.1 mem
      exact not_covers_first nothing fun same => slash (by rw [same]; rfl)
    · exact start (by simpa using walks') there

/-- The first step within a comment. -/
theorem walks_mark (target : UInt32)
    (moves : (LexState.ofRanges .nothing [] [('*', '*', 1), ('/', '/', 2)]).Moves (Text.code c)
      target) :
    comments.Walks 0 [c] target :=
  .snoc .nil rfl ((LexState.moves_onEndOfText_iff _ 5 c).2 moves)

theorem munched_mark (null : Bool) {id : UInt32} {rest : List Char}
    (found : mark cs = some (id, rest)) :
    ∃ p, Munched comments null cs (.token id) p rest := by
  unfold mark at found
  split at found
  · cases found
  next c cs =>
  split_ifs at found with closes opens
  · obtain ⟨rfl, next⟩ := closes
    cases found
    obtain ⟨rest, rfl⟩ := List.head?_eq_some_iff.1 next
    have walks : comments.Walks 0 ['*', '/'] 3 :=
      (walks_mark 1 ((LexState.moves_ofRanges_iff _).2 (by decide))).snoc
        (s := .ofRanges .nothing [] [('/', '/', 3)]) rfl
        ((LexState.moves_ofRanges_iff _).2 (by decide))
    exact ⟨['*', '/'], munched_of_walks closed_comments comments_plain (by decide) (by decide) walks
      (s := .ofRanges (.token commentClose) [] []) rfl
      (fun _ => LexState.not_moves_codes rfl fun _ _ => rfl) rfl⟩
  · obtain ⟨rfl, next⟩ := opens
    cases found
    obtain ⟨rest, rfl⟩ := List.head?_eq_some_iff.1 next
    have walks : comments.Walks 0 ['/', '*'] 4 :=
      (walks_mark 2 ((LexState.moves_ofRanges_iff _).2 (by decide))).snoc
        (s := .ofRanges .nothing [] [('*', '*', 4)]) rfl
        ((LexState.moves_ofRanges_iff _).2 (by decide))
    exact ⟨['/', '*'], munched_of_walks closed_comments comments_plain (by decide) (by decide) walks
      (s := .ofRanges (.token commentBegin) [] []) rfl
      (fun _ => LexState.not_moves_codes rfl fun _ _ => rfl) rfl⟩

theorem answers_none_of_mark (nothing : mark (c :: cs) = none) :
    comments.Answers (Automaton.codes null (c :: cs)) 0 none := by
  have silent : ∀ {p : List Char} {id id' : UInt32} {s s' : LexState}, comments.Walks 0 p id →
      comments.Walks 0 p id' → comments.states[id'.toNat]? = some s' → 
      comments.states[id.toNat]? = some s → s.recognized = .nothing →
      s'.recognized.priority? = none := by
    intro p id id' s s' first second there here none
    obtain rfl := first.unique closed_comments second
    cases here.symm.trans there
    rw [none]
    rfl
  have start : ∀ {id' s'}, comments.Walks 0 [] id' → comments.states[id'.toNat]? = some s' →
      s'.recognized.priority? = none := fun walks there => silent .nil walks there rfl rfl
  -- The first half of a mark may be there, but then the other half is not.
  have half : ∀ (c d : Char) (id other : UInt32), c ≠ '\x00' → d ≠ '\x00' →
      comments.Walks 0 [c] id →
      comments.states[id.toNat]? = some (.ofRanges .nothing [] [(d, d, other)]) →
      cs.head? ≠ some d → comments.Answers (Automaton.codes null (c :: cs)) 0 none := by
    intro c d id other letter letter' walks here next
    refine Automaton.answers_none_of_walks closed_comments comments_plain (p := [c])
      (by simpa using Ne.symm letter) walks here (fun _ => LexState.not_moves_codes ?_ ?_) ?_
    · rw [LexState.covers_single, decide_eq_false (Ne.symm letter')]
    · intro e mem
      rw [LexState.covers_single]
      exact decide_eq_false fun same => next (same ▸ mem)
    · rintro (_ | i) id' s' walks' there
      · exact start walks' there
      · exact silent walks (by simpa using walks') there here rfl
  rw [mark] at nothing
  split_ifs at nothing with closes opens
  by_cases star : c = '*'
  · subst star
    exact half '*' '/' 1 3 (by decide) (by decide)
      (walks_mark _ ((LexState.moves_ofRanges_iff _).2 (by decide))) rfl
      fun next => closes ⟨rfl, next⟩
  by_cases slash : c = '/'
  · subst slash
    exact half '/' '*' 2 4 (by decide) (by decide)
      (walks_mark _ ((LexState.moves_ofRanges_iff _).2 (by decide))) rfl
      fun next => opens ⟨rfl, next⟩
  refine Automaton.answers_none_of_walks closed_comments comments_plain (p := []) (by simp) .nil rfl
    (fun target moves => ?_) fun i id' s' walks' there => start (by simpa using walks') there
  obtain ⟨r, mem, low, high, _⟩ :=
    (LexState.moves_ofRanges_iff c).1 ((LexState.moves_onEndOfText_iff _ 5 c).1 moves)
  rcases List.mem_pair.1 mem with rfl | rfl
  · exact star (Char.le_antisymm high low)
  · exact slash (Char.le_antisymm high low)

end Samples.Calculator

end GrammarMachine
