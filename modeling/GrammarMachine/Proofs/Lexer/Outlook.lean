import GrammarMachine.Proofs.Lexer.Places

/-!
The cursor and a plain list of characters. Whatever is asked of a cursor in a text, one request
after the other, it answers like the list of the characters that stand between it and the end of
text: what it has read ahead, drops and reads again does not show. The window is there all along,
and the reader stands right behind it.
-/

namespace GrammarMachine

/-- What can be asked of a cursor. -/
inductive Request where
  | peek (i : Nat)
  | text (n : Nat)
  | consume (n : Nat)
deriving DecidableEq, Repr

inductive Reply where
  | code (code : Int32)
  | text (content : String)
  | consumed
deriving DecidableEq, Repr

/-- A plain list of characters that is taken from the front. -/
structure Outlook where
  /-- Position of the first one. -/
  pos : Nat
  rest : List Char
  /-- The code that stands behind them. -/
  ending : Int32
  /-- How many places have been looked at since something was taken. -/
  seen : Nat
deriving DecidableEq, Repr

namespace Outlook

/-- In front of some characters at a position: the list goes up to the first null character. -/
def ahead (null : Bool) (pos : Nat) (cs : List Char) (seen : Nat) : Outlook where
  pos
  rest := cs.takeWhile (· ≠ '\x00')
  ending := if '\x00' ∈ cs then nullCode else (Reading.ending null).code
  seen

/-- The code `i` places on. The end repeats. -/
def code (o : Outlook) (i : Nat) : Int32 :=
  (o.rest[i]?.map Text.code).getD o.ending

/-- The text of the first `n` characters, as far as they have been looked at. -/
def text (o : Outlook) (n : Nat) : String :=
  String.ofList (o.rest.take (min n o.seen))

def look (o : Outlook) (i : Nat) : Outlook :=
  { o with seen := max o.seen (i + 1) }

/-- Without the first `n` characters. The first of the others is in sight. -/
def drop (o : Outlook) (n : Nat) : Outlook :=
  { o with
    pos := o.pos + (String.ofList (o.rest.take n)).utf8ByteSize
    rest := o.rest.drop n
    seen := 1 }

def serve (o : Outlook) : Request → Reply × Outlook
  | .peek i => (.code (o.code i), o.look i)
  | .text n => (.text (o.text n), o)
  | .consume n => (.consumed, o.drop n)

/-- The replies to some requests, and what is left in the end. -/
def serveAll : List Request → Outlook → List Reply × Outlook
  | [], o => ([], o)
  | request :: requests, o =>
    let (reply, o) := o.serve request
    let (replies, o) := serveAll requests o
    (reply :: replies, o)

end Outlook

namespace Cursor

def serve (c : Cursor) : Request → Except Fault (Reply × Cursor)
  | .peek i => do
    let (reading, c) ← c.peek i
    return (.code reading.code, c)
  | .text n => return (.text (c.text n), c)
  | .consume n => return (.consumed, ← c.consume n)

/-- The replies to some requests, and where the cursor is in the end. -/
def serveAll : List Request → Cursor → Except Fault (List Reply × Cursor)
  | [], c => .ok ([], c)
  | request :: requests, c => do
    let (reply, c) ← c.serve request
    let (replies, c) ← serveAll requests c
    return (reply :: replies, c)

end Cursor

namespace Outlook

variable {null : Bool} {cs : List Char} {pos seen : Nat}

/-- A reading ahead has the code that the list shows. -/
theorem code_ahead (null : Bool) (pos : Nat) (cs : List Char) (seen i : Nat) :
    (ahead null pos cs seen).code i = (Reading.ofChars null cs i).code := by
  induction cs generalizing i with
  | nil => rfl
  | cons ch cs ih =>
    by_cases ended : ch = '\x00'
    · subst ended
      cases i <;> rfl
    · have ending : ('\x00' ∈ ch :: cs) = ('\x00' ∈ cs) := by
        simp [Ne.symm ended]
      have first : (ch :: cs).takeWhile (· ≠ '\x00') = ch :: cs.takeWhile (· ≠ '\x00') :=
        List.takeWhile_cons_of_pos (by simpa using ended)
      cases i with
      | zero =>
        rw [code, ahead, first]
        rfl
      | succ i =>
        rw [Reading.ofChars_succ ended, ← ih, code, code, ahead, ahead, first,
          List.getElem?_cons_succ]
        simp only [ending]

/-- What is left of the list is what stands behind the characters taken. -/
theorem exists_drop_ahead (null : Bool) (pos : Nat) (cs : List Char) (seen n : Nat) :
    ∃ back, cs = (cs.takeWhile (· ≠ '\x00')).take n ++ back ∧
      (ahead null pos cs seen).drop n =
        ahead null (pos + (String.ofList ((cs.takeWhile (· ≠ '\x00')).take n)).utf8ByteSize)
          back 1 := by
  let front := (cs.takeWhile (· ≠ '\x00')).take n
  obtain ⟨back, whole⟩ : front <+: cs := (List.take_prefix _ _).trans (List.takeWhile_prefix _)
  have letters : ∀ c ∈ front, c ≠ '\x00' := fun c mem => by
    simpa using List.mem_takeWhile_imp (List.mem_of_mem_take mem)
  have passed : cs.takeWhile (· ≠ '\x00') = front ++ back.takeWhile (· ≠ '\x00') := by
    rw [← whole]
    exact List.takeWhile_append_of_pos fun c mem => by simpa using letters c mem
  have rest : (cs.takeWhile (· ≠ '\x00')).drop n = back.takeWhile (· ≠ '\x00') :=
    List.append_cancel_left ((List.take_append_drop n _).trans passed)
  have ending : ('\x00' ∈ cs) = ('\x00' ∈ back) := by
    rw [← whole, List.mem_append, eq_iff_iff]
    exact or_iff_right fun mem => letters _ mem rfl
  refine ⟨back, whole.symm, ?_⟩
  simp only [drop, ahead, rest, ending]

end Outlook

namespace Source

variable {s : Source} {null : Bool} {p : Nat}

theorem le_stop_ofText {text : String} {x y : List Char} (whole : text.toList = x ++ y)
    (null : Bool) : (String.ofList x).utf8ByteSize ≤ (ofText text null).stop := by
  have stop : (ofText text null).stop = 0 + extent (text.toList.map Reading.ofChar) := rfl
  rw [stop, whole, List.map_append, extent_append, extent_ofChars]
  omega

/-- As many characters are passed as stand in front of the end of text. -/
theorem Lays.reach_ofChars {cs : List Char} (lays : s.Lays (.ending null) p (cs.map Reading.ofChar))
    (n : Nat) :
    s.reach p n = p + (String.ofList ((cs.takeWhile (· ≠ '\x00')).take n)).utf8ByteSize := by
  rw [← extent_ofChars]
  induction cs generalizing p n with
  | nil =>
    rw [reach_eq_self (by rw [lays.readAt_eq]; exact Reading.isEnd_ending null)]
    simp [extent]
  | cons ch cs ih =>
    obtain ⟨here, behind⟩ := lays
    by_cases ended : ch = '\x00'
    · subst ended
      rw [reach_eq_self (by rw [here]; rfl)]
      simp [extent]
    cases n with
    | zero => rfl
    | succ n =>
      have going : (s.readAt (s.reach p 0)).isEnd = false := by
        rw [reach_zero, here, Reading.isEnd_ofChar, decide_eq_false ended]
      rw [List.takeWhile_cons_of_pos (by simpa using ended), List.take_succ_cons, List.map_cons,
        extent, Nat.add_comm n, reach_add, reach_succ_of_open going, reach_zero, here, ih behind,
        Nat.add_assoc]

end Source

namespace Cursor

variable {c c' : Cursor} {text : String} {null : Bool} {o : Outlook}

/-- The cursor is in a text, with this ahead of it. -/
structure Renders (text : String) (null : Bool) (c : Cursor) (o : Outlook) : Prop where
  faithful : c.Faithful
  source : c.reader.source = .ofText text null
  place : ∃ x y, text.toList = x ++ y ∧ (String.ofList x).utf8ByteSize = c.pos ∧
    o = .ahead null c.pos y o.seen
  few : c.window.size ≤ o.seen
  seen : c.Seen o.seen
  reader : c.reader.pos = c.pos + Source.extent c.window.toList

theorem renders_start (text : String) (null : Bool) :
    (Cursor.start (.ofText text null)).Renders text null (.ahead null 0 text.toList 1) where
  faithful := faithful_start _
  source := rfl
  place := ⟨[], text.toList, rfl, rfl, rfl⟩
  few := Nat.le_refl 1
  seen := .inl (Nat.le_refl 1)
  reader := rfl

/-- Each character read goes into the window, and the reader behind it. -/
theorem of_fill {n : Nat} (filled : c.fill n = .ok c') :
    c'.window.size ≤ c.window.size + n ∧
      c'.reader.pos + Source.extent c.window.toList =
        c.reader.pos + Source.extent c'.window.toList := by
  induction n generalizing c with
  | zero =>
    cases filled
    exact ⟨Nat.le_refl _, rfl⟩
  | succ n ih =>
    unfold fill at filled
    split at filled
    · cases filled
    · split at filled
      · cases filled
        exact ⟨Nat.le_add_right _ _, rfl⟩
      · obtain ⟨few, reader⟩ := ih filled
        simp only [Array.size_push, Array.toList_push, Source.extent_append,
          Source.extent] at few reader
        omega

theorem window_peek {i : Nat} {r : Reading} (peeked : c.peek i = .ok (r, c')) :
    c'.window.size ≤ max c.window.size (i + 1) ∧
      c'.reader.pos + Source.extent c.window.toList =
        c.reader.pos + Source.extent c'.window.toList := by
  obtain ⟨between, filled, rest⟩ := bind_eq_ok_iff.1 peeked
  obtain ⟨_, _, same⟩ := bind_eq_ok_iff.1 rest
  cases same
  obtain ⟨few, reader⟩ := of_fill filled
  exact ⟨by omega, reader⟩

/-- Consuming leaves one character in the window, with the reader behind it. -/
theorem window_consume {n : Nat} (consumed : c.consume n = .ok c')
    (inside : c'.pos ≤ c'.reader.source.stop)
    (reader : c.reader.pos = c.pos + Source.extent c.window.toList) :
    c'.window.size ≤ 1 ∧ c'.reader.pos = c'.pos + Source.extent c'.window.toList := by
  obtain ⟨d, passed, same⟩ := bind_eq_ok_iff.1 consumed
  cases same
  by_cases refreshed : d.window.size > 1 || n > 0
  · rw [if_pos refreshed] at inside ⊢
    refine ⟨Nat.le_refl 1, ?_⟩
    exact congrArg (· + _) (Nat.min_eq_left inside)
  · rw [if_neg refreshed]
    simp only [Bool.or_eq_true, decide_eq_true_eq, not_or, Nat.not_lt] at refreshed
    obtain ⟨few, none⟩ := refreshed
    cases Nat.le_zero.1 none
    cases passed
    exact ⟨few, reader⟩

namespace Renders

theorem peek (renders : c.Renders text null o) (i : Nat) :
    Yields (c.peek i) fun (r, c') => r.code = o.code i ∧ c'.Renders text null (o.look i) := by
  obtain ⟨⟨r, c'⟩, peeked, read, shows, agrees⟩ := yields_peek renders.faithful i
  obtain ⟨x, y, whole, size, same⟩ := renders.place
  have lays := Source.lays_behind whole null
  rw [size, ← renders.source] at lays
  obtain ⟨few, reader⟩ := window_peek peeked
  obtain ⟨sees, keeps⟩ := seen_peek peeked
  refine .of_eq peeked ⟨?_, ?_, agrees.source.trans renders.source, ?_, ?_, ?_, ?_⟩
  · rw [read, lays.readAt_reach (Reading.isEnd_ending null), same, Outlook.code_ahead]
    rfl
  · unfold Faithful
    rw [agrees.pos]
    exact shows
  · refine ⟨x, y, whole, size.trans agrees.pos.symm, ?_⟩
    rw [agrees.pos]
    exact congrArg (Outlook.look · i) same
  · have before := renders.few
    rw [Outlook.look]
    dsimp only
    omega
  · change c'.Seen (max o.seen (i + 1))
    rcases Nat.le_total o.seen (i + 1) with new | old
    · rwa [Nat.max_eq_right new]
    · rw [Nat.max_eq_left old]
      exact keeps renders.seen
  · have before := renders.reader
    rw [agrees.pos]
    omega

/-- The text of what has been looked at. -/
theorem text_eq (renders : c.Renders text null o) (n : Nat) : c.text n = o.text n := by
  obtain ⟨x, y, whole, size, same⟩ := renders.place
  have lays := Source.lays_behind whole null
  rw [size, ← renders.source] at lays
  have ahead : c.ahead = Reading.ofChars null y :=
    funext (lays.readAt_reach (Reading.isEnd_ending null))
  have inside : ∀ k ≤ o.seen, c.text k = String.ofList (o.rest.take k) := by
    intro k le
    rw [Cursor.text_eq renders.faithful (renders.seen.mono le), ahead, letters_ofChars, same]
    rfl
  rw [Outlook.text]
  rcases Nat.le_total n o.seen with le | beyond
  · rw [Nat.min_eq_left le, inside n le]
  · -- There is nothing in the window that has not been looked at.
    have few := renders.few
    have whole : c.text n = c.text o.seen := by
      rw [Cursor.text, Cursor.text, List.take_of_length_le (by simpa using Nat.le_trans few beyond),
        List.take_of_length_le (by simpa using few)]
    rw [Nat.min_eq_right beyond, whole, inside _ (Nat.le_refl _)]

theorem consume (renders : c.Renders text null o) (n : Nat) :
    Yields (c.consume n) fun c' => c'.Renders text null (o.drop n) := by
  obtain ⟨x, y, whole, size, same⟩ := renders.place
  have lays := Source.lays_behind whole null
  have inside := Source.le_stop_ofText whole null
  rw [size, ← renders.source] at lays inside
  obtain ⟨c', consumed, faithful, source, moved⟩ := yields_consume renders.faithful inside n
  have inside' : c'.pos ≤ c'.reader.source.stop := by
    rw [moved, source]
    exact Source.reach_le_stop inside n
  obtain ⟨few, reader⟩ := window_consume consumed inside' renders.reader
  obtain ⟨back, rest, left⟩ := Outlook.exists_drop_ahead null c.pos y o.seen n
  rw [lays.reach_ofChars] at moved
  refine .of_eq consumed ⟨faithful, source.trans renders.source,
    ⟨x ++ (y.takeWhile (· ≠ '\x00')).take n, back, ?_, ?_, ?_⟩, few, .inl faithful.nonempty, reader⟩
  · rw [List.append_assoc, ← rest]
    exact whole
  · rw [String.ofList_append, String.utf8ByteSize_append, size, moved]
  · rw [same, moved]
    exact left

theorem serve (renders : c.Renders text null o) (request : Request) :
    Yields (c.serve request) fun (reply, c') =>
      reply = (o.serve request).1 ∧ c'.Renders text null (o.serve request).2 := by
  cases request with
  | peek i =>
    refine (renders.peek i).bind fun (r, c') ⟨read, renders'⟩ => ?_
    exact .pure ⟨congrArg Reply.code read, renders'⟩
  | text n => exact .pure ⟨congrArg Reply.text (renders.text_eq n), renders⟩
  | consume n => exact (renders.consume n).bind fun c' renders' => .pure ⟨rfl, renders'⟩

theorem serveAll (renders : c.Renders text null o) (requests : List Request) :
    Yields (c.serveAll requests) fun (replies, c') =>
      replies = (o.serveAll requests).1 ∧ c'.Renders text null (o.serveAll requests).2 := by
  induction requests generalizing c o with
  | nil => exact .ok ⟨rfl, renders⟩
  | cons request requests ih =>
    refine (renders.serve request).bind fun (reply, c₁) ⟨same, renders₁⟩ => ?_
    refine (ih renders₁).bind fun (replies, c₂) ⟨others, renders₂⟩ => ?_
    exact .pure ⟨congrArg₂ List.cons same others, renders₂⟩

end Renders

end Cursor

/-- The cursor refines a plain list of characters: those of the text from its position on, up to the
first null character. Whatever requests are made, each is served, and the replies are the ones that
the list gives. A peek shows the code of the character so many places on, and the code of the end
anywhere behind the last one. A text is made of the characters in front as far as they have been
looked at. Consuming takes characters off the front, as many as there are, and moves the position by
their widths. In between the window is never empty, and the reader is behind what it holds. -/
theorem cursor_refines_list (text : String) (null : Bool) (requests : List Request) :
    let served := (Outlook.ahead null 0 text.toList 1).serveAll requests
    ∃ c, (Cursor.start (.ofText text null)).serveAll requests = .ok (served.1, c) ∧
      0 < c.window.size ∧ c.reader.pos = c.pos + Source.extent c.window.toList ∧
      ∃ x y, text = x ++ y ∧ x.utf8ByteSize = c.pos ∧
        served.2 = .ahead null c.pos y.toList served.2.seen := by
  intro served
  obtain ⟨⟨replies, c⟩, asked, same, renders⟩ :=
    (Cursor.renders_start text null).serveAll requests
  obtain ⟨x, y, whole, size, left⟩ := renders.place
  cases same
  refine ⟨c, asked, renders.faithful.nonempty, renders.reader, .ofList x, .ofList y, ?_, size, ?_⟩
  · rw [← String.ofList_append, ← whole, String.ofList_toList]
  · rwa [String.toList_ofList]

/-- Nothing is looked at or taken beyond a null character. -/
example : ((Outlook.ahead false 0 ['a', 'é', '\x00', 'b'] 1).serveAll
    [.text 3, .peek 3, .text 3, .consume 5, .peek 0]).1 =
      [.text "a", .code 0, .text "aé", .consumed, .code 0] := by
  decide

end GrammarMachine
