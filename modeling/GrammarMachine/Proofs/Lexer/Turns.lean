import GrammarMachine.Proofs.Lexer.Calculator

/-!
The calculator's lexer as a function of the characters ahead. A comment ends where its marks
balance, and a turn of the lexer drops, reports or delivers the characters matched; the place of the
lexer, its window and its fuel do not show.
-/

namespace GrammarMachine.Samples.Calculator

variable {null : Bool} {c : Char} {cs : List Char} {flavor : Flavor}

section Scans

variable {a : Automaton} (closed : a.Closed) (root : 0 < a.states.size) {l : Lexer}
  (faces : l.cursor.Faces null cs)

include closed root faces

theorem scan_of_answers {answer : Option Match}
    (answers : a.Answers (Automaton.codes null cs) 0 answer) :
    ∃ c', a.longestMatch 0 l.cursor = .ok (answer, c') ∧ c'.Faces null cs := by
  have inside : (0 : UInt32).toNat < a.states.size := root
  obtain ⟨⟨found, c'⟩, result, peeked, answers'⟩ :=
    Automaton.ends_longestMatch closed inside faces.placed.faithful
  have same : l.cursor.code = Automaton.codes null cs := by
    rw [Cursor.code_eq, faces.ahead]
  dsimp only at result peeked answers'
  rw [same] at answers'
  exact ⟨c', by rw [result, answers'.unique answers], faces.peeked peeked⟩

theorem scan_of_munched {r : Recognition} {p rest : List Char}
    (munched : Munched a null cs r p rest) :
    ∃ c', l.scan a = .ok (some ⟨r, p.length⟩, { l with cursor := c' }) ∧ c'.Faces null cs ∧
      c'.text p.length = String.ofList p := by
  obtain ⟨c', result, faces'⟩ := scan_of_answers closed root faces munched.answers
  have seen := Automaton.seen_longestMatch result
  refine ⟨c', ?_, faces', ?_⟩
  · rw [Lexer.scan, result]
    have long : 0 < p.length := List.length_pos_of_ne_nil munched.nonempty
    simp [long, pure, Except.pure]
  · have whole := faces'
    rw [munched.whole] at whole
    exact whole.text munched.letters seen

theorem scan_of_none (answers : a.Answers (Automaton.codes null cs) 0 none) :
    ∃ c', l.scan a = .ok (none, { l with cursor := c' }) ∧ c'.Faces null cs := by
  obtain ⟨c', result, faces'⟩ := scan_of_answers closed root faces answers
  exact ⟨c', by rw [Lexer.scan, result]; rfl, faces'⟩

end Scans

theorem consume_of_faces {l : Lexer} {p rest : List Char} (faces : l.cursor.Faces null (p ++ rest))
    (letters : '\x00' ∉ p) (nonempty : p ≠ []) :
    ∃ c', l.consume p.length = .ok { l with cursor := c' } ∧ c'.Faces null rest := by
  obtain ⟨c', result, faces'⟩ := faces.consume letters nonempty
  exact ⟨c', by rw [Lexer.consume, result]; rfl, faces'⟩

/-- The characters behind a comment that is open `nesting` times, if it is closed. -/
def skip (nesting : Nat) : List Char → Option (List Char)
  | [] => none
  | c :: cs =>
    if c = '\x00' then none
    else if c = '*' ∧ cs.head? = some '/' then
      if nesting ≤ 1 then some cs.tail else skip (nesting - 1) cs.tail
    else if c = '/' ∧ cs.head? = some '*' then skip (nesting + 1) cs.tail
    else skip nesting cs
termination_by cs => cs.length
decreasing_by all_goals simp only [List.length_tail, List.length_cons]; omega

/-- The characters from the null character on. -/
def fromNull (cs : List Char) : List Char := cs.dropWhile (· != '\x00')

/-- Where a comment that is skipped leads to. -/
def Skipped (null : Bool) (o : Origin) (l : Lexer) (cs : List Char) (l' : Lexer) :
    Option (List Char) → Prop
  | some rest => ∃ c', l' = { l with cursor := c' } ∧ c'.Faces null rest
  | none => ∃ c', l' = { l with cursor := c' }.diagnose o .unterminatedComment [] ∧
      c'.Faces null (fromNull cs)

theorem fromNull_append {p : List Char} (letters : '\x00' ∉ p) (rest : List Char) :
    fromNull (p ++ rest) = fromNull rest :=
  List.dropWhile_append_of_pos fun _ mem => bne_iff_ne.2 fun same => letters (same ▸ mem)

/-- Characters in front of an open comment are passed with it. -/
theorem Skipped.further {o : Origin} {l l' : Lexer} {c' : Cursor} {p rest : List Char}
    {behind : Option (List Char)} (letters : '\x00' ∉ p)
    (skipped : Skipped null o { l with cursor := c' } rest l' behind) :
    Skipped null o l (p ++ rest) l' behind := by
  cases behind with
  | some => exact skipped
  | none =>
    unfold Skipped
    rw [fromNull_append letters]
    exact skipped

theorem skipped_skipComment {o : Origin} {n nesting : Nat} {l l' : Lexer}
    (faces : l.cursor.Faces null cs) (nested : 0 < nesting)
    (result : Lexer.skipComment (grammar flavor) o n nesting l = .ok l') :
    Skipped null o l cs l' (skip nesting cs) := by
  induction n generalizing nesting l cs with
  | zero => cases result
  | succ n ih =>
    rw [Lexer.skipComment, Cursor.atEnd, faces.head,
      show (grammar flavor).comments = comments from rfl] at result
    dsimp only [ok_bind, pure, Except.pure] at result
    cases cs with
    | nil =>
      rw [show (Reading.ofChars null [] 0).isEnd = true from Reading.isEnd_ending null] at result
      cases result
      rw [skip]
      exact ⟨l.cursor, rfl, faces⟩
    | cons c cs =>
      rw [show (Reading.ofChars null (c :: cs) 0).isEnd = decide (c = '\x00') from
        Reading.isEnd_ofChar c] at result
      by_cases ended : c = '\x00'
      · subst ended
        cases result
        rw [skip, if_pos rfl]
        exact ⟨l.cursor, rfl, faces⟩
      rw [decide_eq_false ended, if_neg Bool.false_ne_true] at result
      -- Every way on starts behind some characters, with the comment still open.
      have next : ∀ {p rest : List Char} {nesting' : Nat} {c' : Cursor}, c :: cs = p ++ rest →
          '\x00' ∉ p → skip nesting (c :: cs) = skip nesting' rest → c'.Faces null rest →
          0 < nesting' →
          Lexer.skipComment (grammar flavor) o n nesting' { l with cursor := c' } = .ok l' →
          Skipped null o l (c :: cs) l' (skip nesting (c :: cs)) := by
        intro p rest nesting' c' whole letters same faces nested result
        rw [same, whole]
        exact (ih faces nested result).further letters
      cases found : mark (c :: cs) with
      | none =>
        obtain ⟨c₁, scanned, faces₁⟩ :=
          scan_of_none closed_comments (by decide) faces (answers_none_of_mark found)
        have single : '\x00' ∉ [c] := by simpa using Ne.symm ended
        obtain ⟨c₂, consumed, faces₂⟩ := consume_of_faces (l := { l with cursor := c₁ })
          (p := [c]) faces₁ single (List.cons_ne_nil _ _)
        rw [scanned, ok_bind] at result
        dsimp only at result
        rw [show (1 : Nat) = [c].length from rfl, consumed, ok_bind] at result
        refine next (p := [c]) rfl single ?_ faces₂ nested result
        rw [mark] at found
        split_ifs at found with closes opens
        rw [skip, if_neg ended, if_neg closes, if_neg opens]
      | some marked =>
        obtain ⟨id, rest⟩ := marked
        obtain ⟨p, munched⟩ := munched_mark null found
        obtain ⟨c₁, scanned, faces₁, _⟩ := scan_of_munched closed_comments (by decide) faces munched
        rw [munched.whole] at faces₁
        obtain ⟨c₂, consumed, faces₂⟩ := consume_of_faces (l := { l with cursor := c₁ }) faces₁
          munched.letters munched.nonempty
        rw [scanned, ok_bind] at result
        dsimp only at result
        rw [consumed, ok_bind] at result
        rw [mark] at found
        split_ifs at found with closes opens
        · cases found
          rw [if_neg (by decide), if_pos (by decide)] at result
          rcases nesting with _ | _ | nesting
          · cases nested
          · cases result
            rw [skip, if_neg ended, if_pos closes, if_pos (Nat.le_refl 1)]
            exact ⟨c₂, rfl, faces₂⟩
          · refine next munched.whole munched.letters ?_ faces₂ (Nat.succ_pos _) result
            rw [skip, if_neg ended, if_pos closes, if_neg (by omega)]
            rfl
        · cases found
          rw [if_pos (by decide)] at result
          refine next munched.whole munched.letters ?_ faces₂ (Nat.succ_pos _) result
          rw [skip, if_neg ended, if_neg closes, if_pos opens]

/-- What a turn of the lexer does: it comes to the end of text, delivers a token, or goes on with
messages behind those there are. -/
inductive Turn where
  | ended
  | deliver (id : UInt32) (text : Option String) (rest : List Char)
  | go (messages : List Message) (afterError stuck : Bool) (rest : List Char)

/-- A turn in front of some characters. -/
def turn (afterError stuck : Bool) : List Char → Turn
  | [] => .ended
  | c :: cs =>
    if c = '\x00' then .ended
    else match munch (c :: cs) with
      | none =>
        .go (if stuck then [] else [⟨.unexpectedChar, [Lexer.describe (Text.code c)]⟩]) true true cs
      | some (.token id, p, rest) =>
        if id = blank then .go [] afterError false rest
        else .deliver id (if id = number then some (String.ofList p) else none) rest
      | some (.commentStart, _, rest) =>
        match skip 1 rest with
        | some behind => .go [] afterError false behind
        | none => .go [⟨.unterminatedComment, []⟩] afterError false (fromNull rest)
      | some (.commentEnd, _, rest) => .go [⟨.unexpectedCommentEnd, []⟩] true false rest
      | some (_, _, rest) => .go [] afterError false rest

/-- The messages of the errors not yet taken. -/
def messages (l : Lexer) : List Message := l.diagnostics.toList.map Diagnostic.message

theorem messages_diagnose (l : Lexer) (o : Origin) (key : Key) (args : List String) :
    messages (l.diagnose o key args) = messages l ++ [⟨key, args⟩] := by
  simp [messages, Lexer.diagnose]

/-- The lexer `l` comes to `r` by this turn and at most `n` more. -/
def Turned (flavor : Flavor) (null : Bool) (n : Nat) (afterError : Bool) (l : Lexer)
    (r : Token × Lexer) : Turn → Prop
  | .ended => r = (⟨endOfText, none, l.origin, afterError⟩, l)
  | .deliver id text rest => r.1 = ⟨id, text, l.origin, afterError⟩ ∧ r.2.cursor.Faces null rest ∧
      r.2.stuck = false ∧ r.2.diagnostics = l.diagnostics
  | .go more afterError stuck rest => ∃ l', l'.cursor.Faces null rest ∧ l'.stuck = stuck ∧
      messages l' = messages l ++ more ∧ Lexer.nextFrom (grammar flavor) n afterError l' = .ok r

/-- Tokens of the lexer other than blanks are significant, and numbers carry their text. -/
theorem token_of_munch {id : UInt32} {p rest : List Char} (flavor : Flavor)
    (found : munch cs = some (.token id, p, rest)) :
    ∃ info, (grammar flavor).token? id = some info ∧ info.significant = decide (id ≠ blank) ∧
      info.carriesValue = decide (id = number) := by
  unfold munch at found
  split at found
  · cases found
  split_ifs at found
  · cases found
    exact ⟨_, rfl, rfl, rfl⟩
  · cases found
    exact ⟨_, rfl, rfl, rfl⟩
  · cases found
  · cases found
  · obtain ⟨sign, signed, same⟩ := Option.map_eq_some_iff.1 found
    cases same
    unfold sign? at signed
    split_ifs at signed <;> cases signed
    all_goals exact ⟨_, rfl, rfl, rfl⟩

/-- An unreadable character is reported if it is the first one of a run. -/
theorem consume_reported {l : Lexer} (faces : l.cursor.Faces null (c :: cs)) (letter : c ≠ '\x00')
    (o : Origin) (args : List String) :
    ∃ l', (if l.stuck then l else { l.diagnose o .unexpectedChar args with stuck := true }).consume
        1 = .ok l' ∧ l'.cursor.Faces null cs ∧ l'.stuck = true ∧
      messages l' = messages l ++ if l.stuck then [] else [⟨.unexpectedChar, args⟩] := by
  have single : '\x00' ∉ [c] := by simpa using Ne.symm letter
  split
  · next stuck =>
    obtain ⟨c', consumed, faces'⟩ := consume_of_faces (p := [c]) faces single (List.cons_ne_nil _ _)
    exact ⟨{ l with cursor := c' }, consumed, faces', stuck, (List.append_nil _).symm⟩
  · obtain ⟨c', consumed, faces'⟩ := consume_of_faces (p := [c])
      (l := { l.diagnose o .unexpectedChar args with stuck := true }) faces single
      (List.cons_ne_nil _ _)
    exact ⟨_, consumed, faces', rfl, messages_diagnose l o .unexpectedChar args⟩

theorem turned_nextFrom {n : Nat} {afterError : Bool} {l : Lexer} {r : Token × Lexer}
    (faces : l.cursor.Faces null cs)
    (result : Lexer.nextFrom (grammar flavor) (n + 1) afterError l = .ok r) :
    Turned flavor null n afterError l r (turn afterError l.stuck cs) := by
  rw [Lexer.nextFrom, faces.head, show (grammar flavor).lexer = lexer from rfl] at result
  dsimp only [ok_bind] at result
  cases cs with
  | nil =>
    rw [show (Reading.ofChars null [] 0).isEnd = true from Reading.isEnd_ending null] at result
    cases result
    rfl
  | cons c cs =>
    rw [show (Reading.ofChars null (c :: cs) 0).isEnd = decide (c = '\x00') from
      Reading.isEnd_ofChar c] at result
    by_cases ended : c = '\x00'
    · subst ended
      cases result
      rfl
    rw [decide_eq_false ended, if_neg Bool.false_ne_true] at result
    rw [turn, if_neg ended]
    cases found : munch (c :: cs) with
    | none =>
      obtain ⟨c₁, scanned, faces₁⟩ :=
        scan_of_none closed_lexer (by decide) faces (answers_none_of_munch found)
      rw [scanned, ok_bind] at result
      dsimp only at result
      obtain ⟨l₂, consumed, faces₂, stuck, told⟩ := consume_reported
        (l := { l with cursor := c₁ }) faces₁ ended l.origin
        [Lexer.describe (Reading.ofChars null (c :: cs) 0).code]
      rw [consumed, ok_bind] at result
      exact ⟨l₂, faces₂, stuck, told, result⟩
    | some munched =>
      obtain ⟨recognized, p, rest⟩ := munched
      have munched := munched_munch null found
      obtain ⟨c₁, scanned, faces₁, text⟩ := scan_of_munched closed_lexer (by decide) faces munched
      rw [munched.whole] at faces₁
      obtain ⟨c₂, consumed, faces₂⟩ := consume_of_faces
        (l := { l with cursor := c₁, stuck := false }) faces₁ munched.letters munched.nonempty
      rw [scanned, ok_bind] at result
      dsimp only at result
      rw [consumed, ok_bind, text] at result
      have silent : messages l = messages l ++ [] := (List.append_nil _).symm
      cases recognized with
      | token id =>
        obtain ⟨info, known, significant, carries⟩ := token_of_munch flavor found
        dsimp only at result ⊢
        rw [known] at result
        dsimp only at result
        rw [significant, carries] at result
        by_cases dropped : id = blank
        · rw [decide_eq_false (not_not_intro dropped), if_neg Bool.false_ne_true] at result
          rw [if_pos dropped]
          exact ⟨{ l with cursor := c₂, stuck := false }, faces₂, rfl, silent, result⟩
        · rw [decide_eq_true dropped, if_pos rfl] at result
          rw [if_neg dropped]
          cases result
          simp only [decide_eq_true_eq]
          exact ⟨rfl, faces₂, rfl, rfl⟩
      | commentStart =>
        dsimp only at result ⊢
        obtain ⟨l₃, skipped, result⟩ := bind_eq_ok_iff.1 result
        have behind := skipped_skipComment (l := { l with cursor := c₂, stuck := false }) faces₂
          Nat.one_pos skipped
        cases closes : skip 1 rest with
        | some behind' =>
          rw [closes] at behind
          obtain ⟨c₃, rfl, faces₃⟩ := behind
          exact ⟨{ l with cursor := c₃, stuck := false }, faces₃, rfl, silent, result⟩
        | none =>
          rw [closes] at behind
          obtain ⟨c₃, rfl, faces₃⟩ := behind
          exact ⟨({ l with cursor := c₃, stuck := false } : Lexer).diagnose l.origin
            .unterminatedComment [], faces₃, rfl,
            messages_diagnose { l with cursor := c₃, stuck := false } _ _ _, result⟩
      | commentEnd =>
        exact ⟨({ l with cursor := c₂, stuck := false } : Lexer).diagnose l.origin
          .unexpectedCommentEnd [], faces₂, rfl,
          messages_diagnose { l with cursor := c₂, stuck := false } _ _ _, result⟩
      | nothing => exact ⟨{ l with cursor := c₂, stuck := false }, faces₂, rfl, silent, result⟩
      | followAccept => exact ⟨{ l with cursor := c₂, stuck := false }, faces₂, rfl, silent, result⟩

end GrammarMachine.Samples.Calculator
