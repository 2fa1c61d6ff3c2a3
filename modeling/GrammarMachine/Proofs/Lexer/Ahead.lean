import GrammarMachine.Lexer.Basic
import GrammarMachine.Proofs.Lexer.Scanning

/-!
What lies ahead of a cursor. A source that lays out characters one behind the other shows them in
order up to the first that ends the text, and wherever a cursor comes to by consuming, it stands in
front of one of them. A scan has seen all characters of the match it answers with, so the text of a
match is that of the characters ahead.
-/

namespace GrammarMachine

namespace Source

variable {s : Source} {last : Reading} {p : Nat} {r : Reading} {rs : List Reading}

theorem reach_add (s : Source) (p n i : Nat) : s.reach p (n + i) = s.reach (s.reach p n) i := by
  induction i with
  | zero => rfl
  | succ i ih =>
    rw [← Nat.add_assoc, reach, reach, ih]

/-- There is no way on from the end of text. -/
theorem reach_eq_self (ended : (s.readAt p).isEnd = true) (i : Nat) : s.reach p i = p :=
  reach_of_end (i := 0) ended (Nat.zero_le i)

/-- Readings one behind the other from `p` on, and `last` behind them. -/
def Lays (s : Source) (last : Reading) : Nat → List Reading → Prop
  | p, [] => s.readAt p = last
  | p, r :: rest => s.readAt p = r ∧ s.Lays last (p + r.width) rest

/-- The reading `i` places on. One that ends the text repeats. -/
def upcoming (last : Reading) : List Reading → Nat → Reading
  | [], _ => last
  | r :: _, 0 => r
  | r :: rest, i + 1 => if r.isEnd then r else upcoming last rest i

theorem extent_append (rs rs' : List Reading) : extent (rs ++ rs') = extent rs + extent rs' := by
  induction rs with
  | nil => rw [List.nil_append, extent, Nat.zero_add]
  | cons r rest ih => rw [List.cons_append, extent, extent, ih, Nat.add_assoc]

theorem Lays.readAt_eq (lays : s.Lays last p rs) : s.readAt p = rs.headD last := by
  cases rs with
  | nil => exact lays
  | cons r rest => exact lays.1

/-- Behind some of the readings stand the others. -/
theorem Lays.behind {front : List Reading} (lays : s.Lays last p (front ++ rs)) :
    s.Lays last (p + extent front) rs := by
  induction front generalizing p with
  | nil => exact lays
  | cons r rest ih =>
    rw [extent, ← Nat.add_assoc]
    exact ih lays.2

theorem Lays.readAt_reach (lays : s.Lays last p rs) (ended : last.isEnd = true) (i : Nat) :
    s.readAt (s.reach p i) = upcoming last rs i := by
  induction rs generalizing p i with
  | nil =>
    rw [reach_eq_self (by rwa [lays.readAt_eq]) i]
    exact lays.readAt_eq
  | cons r rest ih =>
    obtain ⟨here, behind⟩ := lays
    cases i with
    | zero => exact here
    | succ i =>
      rw [upcoming, Nat.add_comm, reach_add]
      split
      · next ends =>
        have stays := reach_eq_self (s := s) (p := p) (by rwa [here])
        rw [stays 1, stays i]
        exact here
      · next going =>
        rw [reach_succ_of_open (i := 0) (by rw [reach_zero, here]; simpa using going), reach_zero,
          here]
        exact ih behind i

/-- Consuming stops behind some of the readings. -/
theorem Lays.exists_reach (lays : s.Lays last p rs) (ended : last.isEnd = true) (n : Nat) :
    ∃ k, s.reach p n = p + extent (rs.take k) := by
  induction n generalizing p rs with
  | zero => exact ⟨0, rfl⟩
  | succ n ih =>
    rw [Nat.add_comm, reach_add]
    cases rs with
    | nil =>
      have stays := reach_eq_self (s := s) (p := p) (by rwa [lays.readAt_eq])
      exact ⟨0, by rw [stays 1, stays n]; rfl⟩
    | cons r rest =>
      obtain ⟨here, behind⟩ := lays
      cases ends : r.isEnd with
      | true =>
        have stays := reach_eq_self (s := s) (p := p) (by rwa [here])
        exact ⟨0, by rw [stays 1, stays n]; rfl⟩
      | false =>
        rw [reach_succ_of_open (i := 0) (by rw [reach_zero, here]; exact ends), reach_zero, here]
        obtain ⟨k, same⟩ := ih behind
        refine ⟨k + 1, ?_⟩
        rw [same, List.take_succ_cons, extent, Nat.add_assoc]

section Layouts

theorem layout_append (p : Nat) (rs rs' : List Reading) :
    layout p (rs ++ rs') = layout p rs ++ layout (p + extent rs) rs' := by
  induction rs generalizing p with
  | nil => rfl
  | cons r rest ih =>
    rw [List.cons_append, layout, layout, ih, extent, Nat.add_assoc, List.cons_append]

theorem length_layout (p : Nat) (rs : List Reading) : (layout p rs).length = rs.length := by
  induction rs generalizing p with
  | nil => rfl
  | cons r rest ih => rw [layout, List.length_cons, ih, List.length_cons]

theorem le_of_mem_layout {entry : Nat × Reading} (mem : entry ∈ layout p rs) : p ≤ entry.1 := by
  induction rs generalizing p with
  | nil => cases mem
  | cons r rest ih =>
    rcases List.mem_cons.1 mem with rfl | tail
    · exact Nat.le_refl _
    · exact Nat.le_trans (Nat.le_add_right _ _) (ih tail)

/-- Readings that are at least one unit wide have ascending positions. -/
theorem layout_ascending (wide : ∀ r ∈ rs, 0 < r.width) (p : Nat) :
    (layout p rs).Pairwise fun a b => a.1 < b.1 := by
  induction rs generalizing p with
  | nil => exact .nil
  | cons r rest ih =>
    obtain ⟨first, others⟩ := List.forall_mem_cons.1 wide
    refine .cons (fun entry mem => ?_) (ih others _)
    have later := le_of_mem_layout mem
    dsimp only
    omega

/-- Among entries in ascending order, the one at a position is found. -/
theorem lookUp_of_mem {entries : Array (Nat × Reading)} {i : Nat}
    (ascending : entries.toList.Pairwise fun a b => a.1 < b.1)
    (here : entries[i]? = some (p, r)) (last : Reading) : lookUp entries last p = r := by
  have found := Search.lastPassing?_eq_of_ascending ascending (fun _ _ => Nat.le_refl _)
    (Array.mem_of_getElem? here) (Nat.le_refl p) (Nat.le_refl p)
  simp only [lookUp, found, if_true]

/-- A source lays out the readings that it was made of. -/
theorem lays_ofReadings (start : Nat) (rs : List Reading) (null : Bool)
    (wide : ∀ r ∈ rs, 0 < r.width) :
    (ofReadings start rs null wide).Lays (Reading.ending null) start rs := by
  suffices ∀ back front, rs = front ++ back →
      (ofReadings start rs null wide).Lays (Reading.ending null) (start + extent front) back from
    this rs [] rfl
  intro back
  induction back with
  | nil =>
    intro front whole
    rw [List.append_nil] at whole
    subst whole
    rcases lookUp_eq_or_mem (layout start rs).toArray (Reading.ending null) (start + extent rs)
      with last | mem
    · exact last
    · obtain ⟨inner, bound⟩ := layout_bounded (List.mem_toArray.1 mem)
      have := wide _ inner
      dsimp only at this bound
      omega
  | cons r rest ih =>
    intro front whole
    constructor
    · refine lookUp_of_mem (i := front.length) (layout_ascending wide start) ?_ _
      have length := length_layout start front
      rw [List.getElem?_toArray, whole, layout_append, List.getElem?_append_right (by omega),
        length, Nat.sub_self, layout, List.getElem?_cons_zero]
    · have next := ih (front ++ [r]) (by rw [whole, List.append_assoc]; rfl)
      rw [extent_append, ← Nat.add_assoc] at next
      exact next

end Layouts

end Source

/-- The character that a reading adds to a text, if it has one. -/
def Reading.letter? (r : Reading) : Option Char :=
  if 0 < r.code then Text.scalar? r.code.toUInt32 else none

theorem Reading.letter?_of_isEnd {r : Reading} (ended : r.isEnd = true) : r.letter? = none := by
  refine if_neg ?_
  rcases Bool.or_eq_true_iff.1 ended with same | same
  · rw [eq_of_beq same]
    decide
  · rw [eq_of_beq same]
    decide

namespace Cursor

variable {c c' : Cursor}

/-- The reading `i` places ahead. The end of text repeats. -/
def ahead (c : Cursor) (i : Nat) : Reading :=
  c.reader.source.readAt (c.reader.source.reach c.pos i)

theorem ahead_of_agrees (agrees : c.Agrees c') : c'.ahead = c.ahead := by
  funext i
  rw [ahead, ahead, agrees.source, agrees.pos]

/-- The window holds the next `n` characters, or all up to the end of text. -/
def Seen (n : Nat) (c : Cursor) : Prop :=
  n ≤ c.window.size ∨ ∃ last, c.window.back? = some last ∧ last.isEnd = true

theorem Seen.mono {n k : Nat} (seen : c.Seen n) (le : k ≤ n) : c.Seen k :=
  seen.imp_left fun enough => Nat.le_trans le enough

theorem seen_fill {n : Nat} (filled : c.fill n = .ok c') :
    c'.Seen (c.window.size + n) ∧ ∀ {k}, c.Seen k → c'.Seen k := by
  induction n generalizing c with
  | zero =>
    cases filled
    exact ⟨.inl (Nat.le_refl _), id⟩
  | succ n ih =>
    unfold fill at filled
    split at filled
    · cases filled
    · next last back =>
      split at filled
      · next ended =>
        cases filled
        exact ⟨.inr ⟨last, back, ended⟩, id⟩
      · next going =>
        obtain ⟨more, keeps⟩ := ih filled
        simp only [Array.size_push] at more
        refine ⟨by rwa [Nat.add_right_comm, Nat.add_assoc] at more, fun seen => keeps ?_⟩
        rcases seen with enough | ⟨other, back', ended⟩
        · refine .inl ?_
          simp only [Array.size_push]
          omega
        · cases back.symm.trans back'
          exact absurd ended going

/-- A peek sees what it answers with, and nothing seen is lost. -/
theorem seen_peek {i : Nat} {r : Reading} (peeked : c.peek i = .ok (r, c')) :
    c'.Seen (i + 1) ∧ ∀ {k}, c.Seen k → c'.Seen k := by
  obtain ⟨between, filled, rest⟩ := bind_eq_ok_iff.1 peeked
  obtain ⟨_, _, same⟩ := bind_eq_ok_iff.1 rest
  cases same
  obtain ⟨more, keeps⟩ := seen_fill filled
  exact ⟨more.mono (by omega), keeps⟩

/-- The text of a window that has seen enough is that of the characters ahead. -/
theorem text_eq {n : Nat} (faithful : c.Faithful) (seen : c.Seen n) :
    c.text n = String.ofList ((List.range n).filterMap fun i => (c.ahead i).letter?) := by
  have shown : ∀ k ≤ c.window.size, c.window.toList.take k = (List.range k).map c.ahead := by
    intro k le
    refine List.ext_getElem? fun i => ?_
    rw [List.getElem?_take, List.getElem?_map, Array.getElem?_toList]
    split
    · next lt =>
      rw [faithful.shown i (by omega), List.getElem?_range lt]
      rfl
    · next ge => rw [List.getElem?_eq_none (by simpa using ge), Option.map_none]
  have inside : ∀ k ≤ c.window.size, c.text k =
      String.ofList ((List.range k).filterMap fun i => (c.ahead i).letter?) := by
    intro k le
    rw [text, shown k le, List.filterMap_map]
    rfl
  rcases seen with enough | ⟨last, back, ended⟩
  · exact inside n enough
  · rcases Nat.le_total n c.window.size with enough | short
    · exact inside n enough
    -- Behind the window the end of text repeats, and it has no letter.
    · obtain ⟨k, rfl⟩ := Nat.exists_eq_add_of_le short
      have nonempty := faithful.nonempty
      rw [Array.back?_eq_getElem?, faithful.shown _ (by omega)] at back
      have beyond : ((List.range k).map (c.window.size + ·)).filterMap
          (fun i => (c.ahead i).letter?) = [] := by
        refine List.filterMap_eq_nil_iff.2 fun i mem => ?_
        obtain ⟨j, _, rfl⟩ := List.mem_map.1 mem
        cases back
        rw [ahead, Source.reach_of_end ended (by omega)]
        exact Reading.letter?_of_isEnd ended
      have whole : c.text (c.window.size + k) = c.text c.window.size := by
        rw [text, text, List.take_of_length_le (by simp), List.take_of_length_le (by simp)]
      rw [whole, inside _ (Nat.le_refl _), List.range_add, List.filterMap_append, beyond,
        List.append_nil]

end Cursor

namespace Scan

variable {α β : Type} {P : Cursor → Prop}

/-- The scan leaves `P` as it is. -/
def Keeps (P : Cursor → Prop) (m : Scan α) : Prop :=
  ∀ c a c', m c = .ok (a, c') → P c → P c'

theorem keeps_pure (a : α) : Keeps P (pure a) := by
  intro c a c' result holds
  cases result
  exact holds

theorem keeps_throw (fault : Fault) : Keeps P (throw fault : Scan α) := nofun

theorem Keeps.bind {m : Scan α} {f : α → Scan β} (first : Keeps P m) (rest : ∀ a, Keeps P (f a)) :
    Keeps P (m >>= f) := by
  intro c b c'' result holds
  obtain ⟨⟨a, c'⟩, head, tail⟩ := bind_eq_ok_iff.1 result
  exact rest a c' b c'' tail (first c a c' head holds)

theorem keeps_lift (x : Except Fault α) : Keeps P (liftM x : Scan α) := by
  intro c a c' result holds
  cases x with
  | error => cases result
  | ok =>
    cases result
    exact holds

/-- A step that does not look at the text leaves the cursor alone. -/
theorem lift_bind_eq_ok {x : Except Fault α} {f : α → Scan β} {c : Cursor} {r : β × Cursor}
    (result : ((liftM x : Scan α) >>= f) c = .ok r) : ∃ a, x = .ok a ∧ f a c = .ok r := by
  cases x with
  | error => cases result
  | ok a => exact ⟨a, rfl, result⟩

theorem keeps_peek (stable : ∀ c i r c', c.peek i = .ok (r, c') → P c → P c') (i : Nat) :
    Keeps P (peek i) := by
  intro c code c' result holds
  obtain ⟨⟨r, c''⟩, peeked, same⟩ := bind_eq_ok_iff.1 result
  cases same
  exact stable c i r c' peeked holds

end Scan

namespace Automaton

open Scan

variable {a : Automaton} {P : Cursor → Prop}
  (stable : ∀ c i r c', c.peek i = .ok (r, c') → P c → P c')

include stable

section Closing

variable {guard : UInt32 → Scan Bool} (guards : ∀ root, Scan.Keeps P (guard root))

include guards

omit stable in
theorem keeps_addTargets (es : List Epsilon) (work : List UInt32) (set : StateSet) :
    Scan.Keeps P (a.addTargets guard es work set) := by
  induction es generalizing work set with
  | nil => exact keeps_pure _
  | cons e rest ih =>
    have proceed : ∀ taken : Bool, Scan.Keeps P (if taken && !set.contains e.target then do
        a.addTargets guard rest (e.target :: work) (← a.insert e.target set)
      else a.addTargets guard rest work set) := by
      intro taken
      split
      · exact (keeps_lift _).bind fun set => ih _ set
      · exact ih _ _
    unfold addTargets
    dsimp only
    split
    · exact (keeps_pure true).bind proceed
    · exact (guards _).bind proceed

omit stable in
theorem keeps_closeFrom (n : Nat) (work : List UInt32) (set : StateSet) :
    Scan.Keeps P (a.closeFrom guard n work set) := by
  induction n generalizing work set with
  | zero =>
    cases work with
    | nil => exact keeps_pure _
    | cons => exact keeps_throw _
  | succ n ih =>
    cases work with
    | nil => exact keeps_pure _
    | cons id work =>
      exact (keeps_lift _).bind fun s =>
        (keeps_addTargets guards s.epsilons work set).bind fun (work, set) => ih work set

end Closing

theorem keeps_followFrom {guard : Nat → UInt32 → Scan Bool}
    (guards : ∀ i root, Scan.Keeps P (guard i root)) (n i : Nat) (set : StateSet) :
    Scan.Keeps P (a.followFrom guard n i set) := by
  induction n generalizing i set with
  | zero => exact keeps_throw _
  | succ n ih =>
    unfold followFrom
    refine (keeps_closeFrom (guards i) _ _ _).bind fun set => ?_
    refine (keeps_lift _).bind fun accepted => ?_
    split
    · exact keeps_pure _
    split
    · exact keeps_pure _
    refine (keeps_peek stable i).bind fun code => (keeps_lift _).bind fun next => ?_
    split
    · exact (keeps_closeFrom (guards (i + 1)) _ _ _).bind fun next => keeps_lift _
    · exact ih _ _

theorem keeps_follows (level i : Nat) (root : UInt32) :
    Scan.Keeps P (a.follows level i root) := by
  induction level generalizing i root with
  | zero => exact keeps_pure _
  | succ level ih =>
    unfold follows
    refine (keeps_lift _).bind fun set => ?_
    intro c accepted c' result
    exact keeps_followFrom stable ih _ i set c accepted c' result

theorem keeps_close (level i : Nat) (set : StateSet) :
    Scan.Keeps P (a.close (a.follows level i) set) :=
  keeps_closeFrom (keeps_follows stable level i) _ _ _

end Automaton

namespace Automaton

open Scan

variable {a : Automaton} {c c' : Cursor}

/-- The match kept is not longer than what the scan has passed. -/
theorem length_le_of_update {i : Nat} {last last' : Option Match} (best : Option Recognition)
    (kept : ∀ m, last = some m → m.length ≤ i)
    (update : last' = match best with
      | some recognized => some ⟨recognized, i⟩
      | none => last) : ∀ m, last' = some m → m.length ≤ i := by
  subst update
  intro m same
  cases best with
  | some recognized =>
    cases same
    exact Nat.le_refl i
  | none => exact kept m same

theorem seen_longestFrom {n i : Nat} {last found : Option Match} {set : StateSet}
    (result : a.longestFrom n i last set c = .ok (found, c')) (seen : c.Seen i)
    (kept : ∀ m, last = some m → m.length ≤ i) : ∀ m, found = some m → c'.Seen m.length := by
  have stable : ∀ (k : Nat) (c : Cursor) i r c', c.peek i = .ok (r, c') → c.Seen k → c'.Seen k :=
    fun _ _ _ _ _ peeked seen => (Cursor.seen_peek peeked).2 seen
  induction n generalizing i last set c with
  | zero => cases result
  | succ n ih =>
    unfold longestFrom at result
    obtain ⟨⟨set, c₁⟩, closed, result⟩ := bind_eq_ok_iff.1 result
    have seen := keeps_close (stable i) _ _ _ _ _ _ closed seen
    obtain ⟨best, _, result⟩ := lift_bind_eq_ok result
    have kept := length_le_of_update best kept rfl
    dsimp only at result
    split at result
    · cases result
      exact fun m same => seen.mono (kept m same)
    obtain ⟨⟨code, c₂⟩, peeked, result⟩ := bind_eq_ok_iff.1 result
    have seen : c₂.Seen (i + 1) := by
      obtain ⟨⟨r, _⟩, peeked, same⟩ := bind_eq_ok_iff.1 peeked
      cases same
      exact (Cursor.seen_peek peeked).1
    obtain ⟨next, _, result⟩ := lift_bind_eq_ok result
    split at result
    · obtain ⟨⟨next, c₃⟩, closed, result⟩ := bind_eq_ok_iff.1 result
      have seen := keeps_close (stable (i + 1)) _ _ _ _ _ _ closed seen
      obtain ⟨best, _, result⟩ := lift_bind_eq_ok result
      cases result
      have kept := length_le_of_update best
        (fun m same => Nat.le_succ_of_le (kept m same)) rfl
      exact fun m same => seen.mono (kept m same)
    · exact ih result seen fun m same => Nat.le_succ_of_le (kept m same)

/-- A scan has seen all characters of the match that it answers with. -/
theorem seen_longestMatch {root : UInt32} {m : Match}
    (result : a.longestMatch root c = .ok (some m, c')) : c'.Seen m.length := by
  unfold longestMatch at result
  obtain ⟨set, _, result⟩ := lift_bind_eq_ok result
  exact seen_longestFrom result (.inl (Nat.zero_le _)) nofun m rfl

end Automaton

end GrammarMachine
