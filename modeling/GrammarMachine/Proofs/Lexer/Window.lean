import GrammarMachine.Lexer.Cursor
import GrammarMachine.Proofs.Success

/-!
The cursor shows its source. `Source.reach` counts characters from a position without passing the
end of text; a window that was filled from a position holds the characters counted from there, a
peek answers with the character counted, and consuming moves the position along the count.
-/

namespace GrammarMachine

namespace Source

variable {s : Source} {p : Nat}

/-- Position of the character `i` places behind the one at `p`. The end of text repeats. -/
def reach (s : Source) (p : Nat) : Nat → Nat
  | 0 => p
  | i + 1 =>
    if (s.readAt (s.reach p i)).isEnd then s.reach p i
    else s.reach p i + (s.readAt (s.reach p i)).width

@[simp] theorem reach_zero (s : Source) (p : Nat) : s.reach p 0 = p := rfl

theorem reach_succ_of_end {i : Nat} (ended : (s.readAt (s.reach p i)).isEnd = true) :
    s.reach p (i + 1) = s.reach p i := by
  rw [reach, if_pos ended]

theorem reach_succ_of_open {i : Nat} (inside : (s.readAt (s.reach p i)).isEnd = false) :
    s.reach p (i + 1) = s.reach p i + (s.readAt (s.reach p i)).width := by
  rw [reach, inside, if_neg Bool.false_ne_true]

theorem reach_le_succ (s : Source) (p i : Nat) : s.reach p i ≤ s.reach p (i + 1) := by
  cases ended : (s.readAt (s.reach p i)).isEnd with
  | true => exact Nat.le_of_eq (reach_succ_of_end ended).symm
  | false =>
    rw [reach_succ_of_open ended]
    exact Nat.le_add_right _ _

theorem reach_mono (s : Source) (p : Nat) {i j : Nat} (le : i ≤ j) :
    s.reach p i ≤ s.reach p j := by
  induction le with
  | refl => exact Nat.le_refl _
  | step _ ih => exact Nat.le_trans ih (reach_le_succ s p _)

theorem reach_of_end {i j : Nat} (ended : (s.readAt (s.reach p i)).isEnd = true) (le : i ≤ j) :
    s.reach p j = s.reach p i := by
  induction le with
  | refl => rfl
  | step _ ih => rw [reach_succ_of_end (by rw [ih]; exact ended), ih]

theorem open_of_le {i j : Nat} (inside : (s.readAt (s.reach p j)).isEnd = false) (le : i ≤ j) :
    (s.readAt (s.reach p i)).isEnd = false := by
  cases ended : (s.readAt (s.reach p i)).isEnd with
  | false => rfl
  | true =>
    rw [reach_of_end ended le, ended] at inside
    exact inside

theorem reach_le_stop (start : p ≤ s.stop) (i : Nat) : s.reach p i ≤ s.stop := by
  induction i with
  | zero => exact start
  | succ i ih =>
    cases ended : (s.readAt (s.reach p i)).isEnd with
    | true => rwa [reach_succ_of_end ended]
    | false =>
      rw [reach_succ_of_open ended]
      exact (s.bounded _ ended).2

/-- In front of the end of text every character takes at least one unit. -/
theorem add_le_reach {i : Nat} (inside : (s.readAt (s.reach p i)).isEnd = false) :
    p + i ≤ s.reach p i := by
  induction i with
  | zero => exact Nat.le_refl _
  | succ i ih =>
    have before := open_of_le inside (Nat.le_succ i)
    have wide := (s.bounded _ before).1
    have here := ih before
    rw [reach_succ_of_open before]
    omega

theorem add_lt_stop {i : Nat} (inside : (s.readAt (s.reach p i)).isEnd = false) :
    p + i < s.stop := by
  have here := add_le_reach inside
  have bound := s.bounded _ inside
  omega

theorem lt_reach {n : Nat} (inside : (s.readAt p).isEnd = false) (pos : 0 < n) :
    p < s.reach p n := by
  have first : p < s.reach p 1 := by
    rw [reach_succ_of_open (i := 0) inside, reach_zero]
    have wide := (s.bounded p inside).1
    omega
  exact Nat.lt_of_lt_of_le first (reach_mono s p pos)

end Source

namespace Cursor

variable {c c' c'' : Cursor} {p : Nat}

/-- The same place in the same source, whatever has been read ahead. -/
structure Agrees (c c' : Cursor) : Prop where
  source : c'.reader.source = c.reader.source
  pos : c'.pos = c.pos
  line : c'.line = c.line
  col : c'.col = c.col
  afterReturn : c'.afterReturn = c.afterReturn

theorem Agrees.refl (c : Cursor) : c.Agrees c := ⟨rfl, rfl, rfl, rfl, rfl⟩

theorem Agrees.trans (first : c.Agrees c') (second : c'.Agrees c'') : c.Agrees c'' :=
  ⟨second.source.trans first.source, second.pos.trans first.pos, second.line.trans first.line,
    second.col.trans first.col, second.afterReturn.trans first.afterReturn⟩

/-- The window holds the characters from `p` on, the last of them possibly the end of text. -/
structure Shows (c : Cursor) (p : Nat) : Prop where
  nonempty : 0 < c.window.size
  shown : ∀ i, i < c.window.size →
    c.window[i]? = some (c.reader.source.readAt (c.reader.source.reach p i))
  inner : ∀ i, i + 1 < c.window.size →
    (c.reader.source.readAt (c.reader.source.reach p i)).isEnd = false
  reader : (c.reader.source.readAt (c.reader.source.reach p (c.window.size - 1))).isEnd = false →
    c.reader.pos = c.reader.source.reach p c.window.size

/-- The window starts at the cursor's position. -/
def Faithful (c : Cursor) : Prop := c.Shows c.pos

/-- Reading one more character behind a window that does not end in the end of text. -/
theorem Shows.push (shows : c.Shows p)
    (inside : (c.reader.source.readAt (c.reader.source.reach p (c.window.size - 1))).isEnd = false) :
    ({ c with reader := c.reader.read.2, window := c.window.push c.reader.read.1 } : Cursor).Shows
      p := by
  have size : (c.window.push c.reader.read.1).size = c.window.size + 1 := Array.size_push _
  have nonempty := shows.nonempty
  have place := shows.reader inside
  constructor
  · simp only [size]
    omega
  · intro i lt
    simp only [size] at lt
    rcases Nat.lt_succ_iff_lt_or_eq.1 lt with before | rfl
    · rw [Array.getElem?_push_lt before]
      exact (Array.getElem?_eq_getElem before).symm.trans (shows.shown i before)
    · rw [Array.getElem?_push_size]
      simp only [Reader.read, place]
  · intro i lt
    simp only [size] at lt
    exact Source.open_of_le inside (by omega)
  · intro inner
    simp only [size, Nat.add_sub_cancel] at inner ⊢
    simp only [Reader.read] at inner ⊢
    rw [place, Source.reach_succ_of_open inner]

theorem yields_fill (shows : c.Shows p) (n : Nat) :
    Yields (c.fill n) fun c' => c'.Shows p ∧ c.Agrees c' ∧
      (c.window.size + n ≤ c'.window.size ∨
        (c'.reader.source.readAt (c'.reader.source.reach p (c'.window.size - 1))).isEnd = true) := by
  induction n generalizing c with
  | zero => exact .ok ⟨shows, .refl c, .inl (Nat.le_refl _)⟩
  | succ n ih =>
    have nonempty := shows.nonempty
    have back : c.window.back? =
        some (c.reader.source.readAt (c.reader.source.reach p (c.window.size - 1))) := by
      rw [Array.back?_eq_getElem?]
      exact shows.shown _ (by omega)
    rw [fill, back]
    dsimp only
    split
    · next ended => exact .ok ⟨shows, .refl c, .inr ended⟩
    · next inside =>
      rw [Bool.not_eq_true] at inside
      refine (ih (shows.push inside)).mono fun c' ⟨shows', agrees, far⟩ => ?_
      refine ⟨shows', ⟨agrees.source, agrees.pos, agrees.line, agrees.col, agrees.afterReturn⟩, ?_⟩
      rw [Array.size_push] at far
      rcases far with far | ended
      · exact .inl (by omega)
      · exact .inr ended

/-- A peek answers with the character counted, in whatever state the window is. -/
theorem yields_peek (shows : c.Shows p) (i : Nat) :
    Yields (c.peek i) fun (r, c') =>
      r = c.reader.source.readAt (c.reader.source.reach p i) ∧ c'.Shows p ∧ c.Agrees c' := by
  refine (yields_fill shows (i + 1 - c.window.size)).bind fun c' ⟨shows', agrees, far⟩ => ?_
  have nonempty := shows'.nonempty
  have at_min := shows'.shown (min i (c'.window.size - 1)) (by omega)
  refine .bind_ok (fetch_eq_ok_iff.2 at_min) (.pure ⟨?_, shows', agrees⟩)
  rw [agrees.source]
  rcases far with far | ended
  · rw [Nat.min_eq_left (by omega)]
  · rcases Nat.le_total i (c'.window.size - 1) with le | ge
    · rw [Nat.min_eq_left le]
    · rw [agrees.source] at ended
      rw [Nat.min_eq_right ge, Source.reach_of_end ended ge]

theorem yields_head (shows : c.Shows p) :
    Yields c.head fun r => r = c.reader.source.readAt p :=
  .of_eq (fetch_eq_ok_iff.2 (shows.shown 0 shows.nonempty)) rfl

theorem yields_atEnd (shows : c.Shows p) :
    Yields c.atEnd fun ended => ended = (c.reader.source.readAt p).isEnd :=
  (yields_head shows).bind fun _ read => .pure (congrArg Reading.isEnd read)

@[simp] theorem reader_track (c : Cursor) (code : Int32) : (c.track code).reader = c.reader := by
  unfold track
  repeat' split
  all_goals rfl

@[simp] theorem window_track (c : Cursor) (code : Int32) : (c.track code).window = c.window := by
  unfold track
  repeat' split
  all_goals rfl

@[simp] theorem pos_track (c : Cursor) (code : Int32) : (c.track code).pos = c.pos := by
  unfold track
  repeat' split
  all_goals rfl

/-- Only the window and the reader behind it count for what is shown. -/
theorem Shows.congr (shows : c.Shows p) (reader : c'.reader = c.reader)
    (window : c'.window = c.window) : c'.Shows p := by
  constructor
  · rw [window]; exact shows.nonempty
  · rw [window, reader]; exact shows.shown
  · rw [window, reader]; exact shows.inner
  · rw [window, reader]; exact shows.reader

theorem yields_pass (shows : c.Shows p) {i : Nat} (n : Nat)
    (at_i : c.pos = c.reader.source.reach p i) :
    Yields (c.pass n i) fun c' => c'.Shows p ∧ c'.reader.source = c.reader.source ∧
      c'.pos = c.reader.source.reach p (i + n) := by
  induction n generalizing c i with
  | zero => exact .ok ⟨shows, rfl, at_i⟩
  | succ n ih =>
    refine (yields_peek shows i).bind fun (r, c') ⟨read, shows', agrees⟩ => ?_
    dsimp only at read shows' agrees ⊢
    subst read
    split
    · next ended =>
      refine .pure ⟨shows', agrees.source, ?_⟩
      rw [agrees.pos, at_i, Source.reach_of_end ended (Nat.le_add_right i (n + 1))]
    · next inside =>
      rw [Bool.not_eq_true] at inside
      refine (ih (i := i + 1) (shows'.congr ?_ ?_) ?_).mono fun last ⟨shows'', source, pos⟩ => ?_
      · exact reader_track c' _
      · exact window_track c' _
      · simp only [pos_track, reader_track, agrees.pos, agrees.source, at_i]
        rw [Source.reach_succ_of_open inside]
      · simp only [reader_track, agrees.source] at source pos
        refine ⟨shows'', source, ?_⟩
        rw [pos, Nat.add_right_comm, Nat.add_assoc]

theorem faithful_refresh (inside : c.pos ≤ c.reader.source.stop) : c.refresh.Faithful := by
  have seek : min c.pos c.reader.source.stop = c.pos := Nat.min_eq_left inside
  constructor
  · simp [refresh]
  · intro i lt
    have zero : i = 0 := by simpa [refresh] using lt
    subst zero
    simp [refresh, Reader.read, Reader.seek, seek]
  · intro i lt
    simp [refresh] at lt
  · intro inner
    simp only [refresh, Reader.read, Reader.seek, seek, List.size_toArray, List.length_singleton,
      Nat.sub_self, Source.reach_zero] at inner ⊢
    rw [Source.reach_succ_of_open (i := 0) inner, Source.reach_zero]

/-- Consuming moves the position by as many characters, and the window starts there anew. -/
theorem yields_consume (faithful : c.Faithful) (inside : c.pos ≤ c.reader.source.stop) (n : Nat) :
    Yields (c.consume n) fun c' => c'.Faithful ∧ c'.reader.source = c.reader.source ∧
      c'.pos = c.reader.source.reach c.pos n := by
  refine (yields_pass faithful (i := 0) n rfl).bind fun c' ⟨shows, source, pos⟩ => ?_
  rw [Nat.zero_add] at pos
  refine .pure ?_
  split
  · have bound : c'.pos ≤ c'.reader.source.stop := by
      rw [pos, source]
      exact Source.reach_le_stop inside n
    exact ⟨faithful_refresh bound, source, pos⟩
  · next idle =>
    have none : n = 0 := by simp at idle; omega
    subst none
    refine ⟨?_, source, pos⟩
    unfold Faithful
    rw [pos]
    exact shows

theorem faithful_start (source : Source) : (Cursor.start source).Faithful := by
  constructor
  · simp [start]
  · intro i lt
    have zero : i = 0 := by simpa [start] using lt
    subst zero
    simp [start, Reader.read, Reader.start]
  · intro i lt
    simp [start] at lt
  · intro inner
    simp only [start, Reader.read, Reader.start, List.size_toArray, List.length_singleton,
      Nat.sub_self, Source.reach_zero] at inner ⊢
    rw [Source.reach_succ_of_open (i := 0) inner, Source.reach_zero]

end Cursor

end GrammarMachine
