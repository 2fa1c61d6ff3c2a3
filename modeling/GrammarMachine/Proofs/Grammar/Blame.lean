import Mathlib.Tactic.SplitIfs
import GrammarMachine.Proofs.Grammar.PrefixFree

/-!
Refusals of the binary form are true of the bytes. A decoder stands at a place in the bytes and makes
accesses: it reads a field, or asks how much is left. Every access starts within the bytes and ends
there, unless it is refused as truncated; and what is refused as a bad code is stored at the place
that is named, and is not what the field admits.
-/

namespace GrammarMachine

/-- The number that bytes spell, lowest first. -/
def littleEndian : List UInt8 → Nat
  | [] => 0
  | b :: rest => b.toNat + 0x100 * littleEndian rest

namespace Field

/-- Number of bytes that a field takes. -/
def width : Field → Nat
  | actionKind => 1
  | _ => 4

def isSigned : Field → Bool
  | recognizedToken => true
  | continuationState => true
  | _ => false

/-- What is stored in the field that starts at `offset`. -/
def valueAt (field : Field) (bytes : List UInt8) (offset : Nat) : Int :=
  let stored := littleEndian ((bytes.drop offset).take field.width)
  if field.isSigned && 0x80000000 ≤ stored then (stored : Int) - 0x100000000 else stored

/-- The values that a field admits in front of `left` more bytes. The records of a count have to fit
in them; a field that counts nothing has records of size zero and admits everything. -/
def Admits (left : Nat) (value : Int) : Field → Prop
  | significantFlag | valueFlag | softFlag => value = 0 ∨ value = 1
  | nameCharacter => ∃ c : Char, (c.toNat : Int) = value
  | nameTerminator => value = 0
  | recognizedToken => -4 ≤ value
  | continuationState => -1 ≤ value
  | actionKind => value ≤ 3
  | field => value * field.recordSize ≤ left

end Field

theorem Field.admits_of_isCount {field : Field} (counts : field.isCount = true) :
    field.width = 4 ∧ field.isSigned = false ∧
      ∀ left value, field.Admits left value ↔ value * field.recordSize ≤ left := by
  cases field <;> simp [isCount, recordSize] at counts <;> exact ⟨rfl, rfl, fun _ _ => Iff.rfl⟩

/-- What an error says of the bytes. -/
def LoadError.TrueOf (bytes : List UInt8) : LoadError → Prop
  | truncated offset field => offset ≤ bytes.length ∧ bytes.length < offset + field.width
  | badCode field value offset =>
    offset + field.width ≤ bytes.length ∧ field.valueAt bytes offset = value ∧
      ¬ field.Admits (bytes.length - (offset + field.width)) value
  | trailing length => 0 < length ∧ length ≤ bytes.length
  | invalid _ => True
  | json => False

/-- Some bytes that a decoder looks at. One that only asks what is left looks at none. -/
structure Access where
  offset : Nat
  width : Nat

/-- What is still to be read of `bytes` at a place. -/
def Stream.place (bytes : List UInt8) (offset : Nat) : Stream := ⟨offset, bytes.drop offset⟩

namespace Decoder

/-- Are there at least `n` more bytes? -/
def room (n : Nat) : Decoder Bool := return atLeast n (← get).rest

/-- The accesses that a decoder makes from a place in the bytes on, in order. -/
inductive Makes : {α : Type} → Decoder α → Stream → List Access → Prop
  | pure {α : Type} (x : α) (s : Stream) : Makes (pure x) s []
  | throw {α : Type} (e : LoadError) (s : Stream) : Makes (throw e : Decoder α) s []
  | offset (s : Stream) : Makes offset s []
  | byte (field : Field) (s : Stream) : Makes (byte field) s [⟨s.offset, 1⟩]
  | word (field : Field) (s : Stream) : Makes (word field) s [⟨s.offset, 4⟩]
  | room (n : Nat) (s : Stream) : Makes (room n) s [⟨s.offset, 0⟩]
  | refused {α β : Type} {d : Decoder α} (f : α → Decoder β) {s : Stream} {first : List Access}
      {e : LoadError} (makes : Makes d s first) (refused : d s = .error e) :
      Makes (d >>= f) s first
  | bind {α β : Type} {d : Decoder α} {f : α → Decoder β} {s s' : Stream} {x : α}
      {first second : List Access} (makes : Makes d s first) (returned : d s = .ok (x, s'))
      (next : Makes (f x) s' second) : Makes (d >>= f) s (first ++ second)

variable {α β : Type} {bytes : List UInt8} {d : Decoder α} {place : Nat}

/-- From a place in the bytes on, `d` looks at nothing outside them, ends at a place in them, and
refuses them for a reason that is true. -/
structure Behaves (bytes : List UInt8) (place : Nat) (d : Decoder α) : Prop where
  accesses : ∃ accesses, d.Makes (.place bytes place) accesses ∧
    ∀ a ∈ accesses, a.offset ≤ bytes.length ∧
      (a.offset + a.width ≤ bytes.length ∨
        ∃ field, d (.place bytes place) = .error (.truncated a.offset field))
  returns : ∀ x s, d (.place bytes place) = .ok (x, s) →
    ∃ next, next ≤ bytes.length ∧ s = .place bytes next
  refuses : ∀ e, d (.place bytes place) = .error e → e.TrueOf bytes

/-- `d` does so from every place. -/
def Honest (bytes : List UInt8) (d : Decoder α) : Prop :=
  ∀ place, place ≤ bytes.length → Behaves bytes place d

theorem behaves_pure (x : α) (inside : place ≤ bytes.length) : Behaves bytes place (pure x) where
  accesses := ⟨[], .pure x _, nofun⟩
  returns := by
    intro y s result
    cases result
    exact ⟨place, inside, rfl⟩
  refuses := nofun

theorem behaves_throw {e : LoadError} (blames : e.TrueOf bytes) :
    Behaves bytes place (throw e : Decoder α) where
  accesses := ⟨[], .throw e _, nofun⟩
  returns := nofun
  refuses := by
    intro e' result
    cases result
    exact blames

theorem Behaves.bind {f : α → Decoder β} (first : Behaves bytes place d)
    (second : ∀ x next, next ≤ bytes.length →
      d (.place bytes place) = .ok (x, .place bytes next) → Behaves bytes next (f x)) :
    Behaves bytes place (d >>= f) := by
  obtain ⟨accesses, makes, minds⟩ := first.accesses
  cases result : d (.place bytes place) with
  | error e =>
    have whole : (d >>= f) (.place bytes place) = .error e := by
      rw [bind_apply, result]
      rfl
    refine ⟨⟨accesses, .refused f makes result, fun a mem => ?_⟩, fun x s returned => ?_,
      fun e' refused => ?_⟩
    · obtain ⟨starts, ends⟩ := minds a mem
      refine ⟨starts, ends.imp_right fun ⟨field, refused⟩ => ⟨field, ?_⟩⟩
      cases result.symm.trans refused
      exact whole
    · cases whole.symm.trans returned
    · cases whole.symm.trans refused
      exact first.refuses e result
  | ok read =>
    obtain ⟨x, s⟩ := read
    obtain ⟨next, inside, rfl⟩ := first.returns x s result
    have rest := second x next inside result
    have whole : (d >>= f) (.place bytes place) = f x (.place bytes next) := by
      rw [bind_apply, result]
      rfl
    obtain ⟨more, makes', minds'⟩ := rest.accesses
    refine ⟨⟨accesses ++ more, .bind makes result makes', fun a mem => ?_⟩, ?_, ?_⟩
    · rw [whole]
      rcases List.mem_append.1 mem with before | after
      · obtain ⟨starts, ends | ⟨field, refused⟩⟩ := minds a before
        · exact ⟨starts, .inl ends⟩
        · cases result.symm.trans refused
      · exact minds' a after
    · rw [whole]
      exact rest.returns
    · rw [whole]
      exact rest.refuses

theorem Honest.bind {f : α → Decoder β} (first : Honest bytes d)
    (second : ∀ x, Honest bytes (f x)) : Honest bytes (d >>= f) :=
  fun place inside => (first place inside).bind fun x next inside' _ => second x next inside'

theorem honest_pure (x : α) : Honest bytes (pure x) := fun _ => behaves_pure x

section Fields

/-- `d` reads a field, of which it returns what is stored there. -/
structure Stores (bytes : List UInt8) (d : Decoder α) (field : Field) (value : α → Int) : Prop where
  honest : Honest bytes d
  stored : ∀ {place x s}, d (.place bytes place) = .ok (x, s) →
    place + field.width ≤ bytes.length ∧ s = .place bytes (place + field.width) ∧
      field.valueAt bytes place = value x

/-- A field that is read with its place in mind, to be refused there. -/
theorem Stores.bind {field : Field} {value : α → Int} (stores : Stores bytes d field value)
    {f : Nat → α → Decoder β}
    (each : ∀ start x, start + field.width ≤ bytes.length → field.valueAt bytes start = value x →
      Behaves bytes (start + field.width) (f start x)) :
    Honest bytes (offset >>= fun start => d >>= f start) := by
  intro place inside
  have here : Behaves bytes place offset :=
    ⟨⟨[], .offset _, nofun⟩, fun _ _ result => ⟨place, inside, by cases result; rfl⟩, nofun⟩
  refine here.bind fun start next _ at_start => ?_
  cases at_start
  refine (stores.honest place inside).bind fun x next _ read => ?_
  obtain ⟨fits, moved, same⟩ := stores.stored read
  rw [show next = place + field.width from congrArg Stream.offset moved]
  exact each place x fits same

/-- A word is read where four bytes are left, and is truncated elsewhere. -/
theorem word_place (field : Field) (place : Nat) :
    (place + 4 ≤ bytes.length ∧ ∃ w,
      word field (.place bytes place) = .ok (w, .place bytes (place + 4)) ∧
        littleEndian ((bytes.drop place).take 4) = w.toNat) ∨
      (bytes.length < place + 4 ∧
        word field (.place bytes place) = .error (.truncated place field)) := by
  have left : (bytes.drop place).length = bytes.length - place := List.length_drop
  have behind : bytes.drop (place + 4) = (bytes.drop place).drop 4 := List.drop_drop.symm
  rw [Stream.place, Stream.place, behind]
  match same : bytes.drop place with
  | a :: b :: c :: d :: rest =>
    rw [same] at left
    refine .inl ⟨by simp only [List.length_cons] at left; omega, wordOf a b c d, rfl, ?_⟩
    have ha := a.toNat_lt
    have hb := b.toNat_lt
    have hc := c.toNat_lt
    have hd := d.toNat_lt
    simp only [List.take_succ_cons, List.take_zero, littleEndian, wordOf, Nat.toUInt32_eq,
      UInt32.toNat_ofNat']
    omega
  | [] | [_] | [_, _] | [_, _, _] =>
    rw [same] at left
    exact .inr ⟨by simp only [List.length_cons, List.length_nil] at left; omega, rfl⟩

theorem byte_place (field : Field) (place : Nat) :
    (place + 1 ≤ bytes.length ∧ ∃ b,
      byte field (.place bytes place) = .ok (b, .place bytes (place + 1)) ∧
        littleEndian ((bytes.drop place).take 1) = b.toNat) ∨
      (bytes.length < place + 1 ∧
        byte field (.place bytes place) = .error (.truncated place field)) := by
  have left : (bytes.drop place).length = bytes.length - place := List.length_drop
  have behind : bytes.drop (place + 1) = (bytes.drop place).drop 1 := List.drop_drop.symm
  rw [Stream.place, Stream.place, behind]
  cases same : bytes.drop place with
  | nil =>
    rw [same] at left
    exact .inr ⟨by simp only [List.length_nil] at left; omega, rfl⟩
  | cons b rest =>
    rw [same] at left
    exact .inl ⟨by simp only [List.length_cons] at left; omega, b, rfl, rfl⟩

/-- A decoder that reads one field, or finds it truncated. -/
theorem honest_of_read (field : Field) (makes : ∀ s, d.Makes s [⟨s.offset, field.width⟩])
    (read : ∀ place,
      (place + field.width ≤ bytes.length ∧
        ∃ x, d (.place bytes place) = .ok (x, .place bytes (place + field.width))) ∨
      (bytes.length < place + field.width ∧
        d (.place bytes place) = .error (.truncated place field))) : Honest bytes d := by
  intro place inside
  rcases read place with ⟨fits, x, result⟩ | ⟨short, result⟩
  · refine ⟨⟨_, makes _, fun a mem => ?_⟩, fun y s returned => ?_, fun e refused => ?_⟩
    · cases List.mem_singleton.1 mem
      exact ⟨inside, .inl fits⟩
    · cases result.symm.trans returned
      exact ⟨_, fits, rfl⟩
    · cases result.symm.trans refused
  · refine ⟨⟨_, makes _, fun a mem => ?_⟩, fun y s returned => ?_, fun e refused => ?_⟩
    · cases List.mem_singleton.1 mem
      exact ⟨inside, .inr ⟨field, result⟩⟩
    · cases result.symm.trans returned
    · cases result.symm.trans refused
      exact ⟨inside, short⟩

theorem honest_word {field : Field} (wide : field.width = 4) : Honest bytes (word field) := by
  refine honest_of_read field (fun s => wide ▸ .word field s) fun place => ?_
  rw [wide]
  exact (word_place field place).imp_left fun ⟨fits, w, result, _⟩ => ⟨fits, w, result⟩

/-- What is returned was read. -/
theorem stored_word {field : Field} {w : UInt32} {s : Stream}
    (returned : word field (.place bytes place) = .ok (w, s)) :
    place + 4 ≤ bytes.length ∧ s = .place bytes (place + 4) ∧
      littleEndian ((bytes.drop place).take 4) = w.toNat := by
  rcases word_place field place with ⟨fits, w', result, spells⟩ | ⟨_, result⟩
  · cases result.symm.trans returned
    exact ⟨fits, rfl, spells⟩
  · cases result.symm.trans returned

theorem stores_word {field : Field} (wide : field.width = 4) (unsigned : field.isSigned = false) :
    Stores bytes (word field) field fun w => w.toNat where
  honest := honest_word wide
  stored := by
    intro place w s returned
    obtain ⟨fits, moved, spells⟩ := stored_word returned
    refine ⟨wide ▸ fits, wide ▸ moved, ?_⟩
    rw [Field.valueAt, wide, spells, unsigned, Bool.false_and, if_neg Bool.false_ne_true]

theorem stores_signed {field : Field} (wide : field.width = 4) (signs : field.isSigned = true) :
    Stores bytes (signed field) field Int32.toInt where
  honest := (honest_word wide).bind fun _ => honest_pure _
  stored := by
    intro place code s returned
    obtain ⟨⟨w, between⟩, read, last⟩ := bind_eq_ok_iff.1 returned
    cases last
    obtain ⟨fits, moved, spells⟩ := stored_word read
    refine ⟨wide ▸ fits, wide ▸ moved, ?_⟩
    have value : w.toInt32.toInt =
        if 2 * w.toNat < 2 ^ 32 then (w.toNat : Int) else w.toNat - 2 ^ 32 := by
      rw [← Int32.toInt_toBitVec, UInt32.toBitVec_toInt32, BitVec.toInt_eq_toNat_cond,
        UInt32.toNat_toBitVec]
      rfl
    rw [Field.valueAt, wide, spells, signs, value, Bool.true_and]
    split <;> split <;> grind

theorem stores_byte : Stores bytes (byte .actionKind) .actionKind fun b => b.toNat where
  honest := honest_of_read .actionKind (fun s => .byte _ s) fun place =>
    (byte_place _ place).imp_left fun ⟨fits, b, result, _⟩ => ⟨fits, b, result⟩
  stored := by
    intro place b s returned
    rcases byte_place .actionKind place with ⟨fits, b', result, spells⟩ | ⟨_, result⟩
    · cases result.symm.trans returned
      exact ⟨fits, rfl, congrArg Int.ofNat spells⟩
    · cases result.symm.trans returned

/-- Asking what is left reads nothing. -/
theorem behaves_room (n : Nat) (inside : place ≤ bytes.length) :
    Behaves bytes place (room n) where
  accesses := by
    refine ⟨_, .room n _, fun a mem => ?_⟩
    cases List.mem_singleton.1 mem
    exact ⟨inside, .inl inside⟩
  returns := by
    intro x s result
    cases result
    exact ⟨place, inside, rfl⟩
  refuses := nofun

theorem count_eq (field : Field) : count field = (do
    let start ← offset
    let w ← word field
    if ← room (w.toNat * field.recordSize) then return w.toNat
    throw (.badCode field w.toNat start)) := rfl

/-- A count is refused where its records do not fit in what is left behind it. -/
theorem honest_count {field : Field} (counts : field.isCount = true) :
    Honest bytes (count field) := by
  obtain ⟨wide, unsigned, admits⟩ := Field.admits_of_isCount counts
  rw [count_eq]
  refine (stores_word wide unsigned).bind fun start w fits same => ?_
  rw [wide] at fits ⊢
  refine (behaves_room (w.toNat * field.recordSize) fits).bind fun enough next inside result => ?_
  cases enough with
  | true => exact behaves_pure _ inside
  | false =>
    refine behaves_throw ⟨wide ▸ fits, same, ?_⟩
    have missing : atLeast (w.toNat * field.recordSize) (bytes.drop (start + 4)) ≠ true := by
      intro enough
      rw [room, Stream.place] at result
      change Except.ok (atLeast _ (bytes.drop (start + 4)), _) = _ at result
      rw [enough] at result
      cases result
    rw [Ne, atLeast_iff, List.length_drop] at missing
    rw [admits, wide]
    omega

theorem honest_flag {field : Field} (wide : field.width = 4) (unsigned : field.isSigned = false)
    (admits : ∀ left value, field.Admits left value ↔ value = 0 ∨ value = 1) :
    Honest bytes (flag field) := by
  refine (stores_word wide unsigned).bind fun start w fits same => ?_
  split
  · exact behaves_pure _ fits
  · next nonzero =>
    split
    · exact behaves_pure _ fits
    · next other =>
      refine behaves_throw ⟨fits, same, ?_⟩
      rw [admits]
      rintro (zero | one)
      · exact nonzero (UInt32.toNat_inj.1 (Int.ofNat_inj.1 zero))
      · exact other (UInt32.toNat_inj.1 (Int.ofNat_inj.1 one))

end Fields

section Records

theorem honest_many (each : Honest bytes d) (n : Nat) : Honest bytes (many d n) := by
  induction n with
  | zero => exact honest_pure _
  | succ n ih => exact each.bind fun _ => ih.bind fun _ => honest_pure _

theorem honest_each {record : β → Decoder α} (each : ∀ head, Honest bytes (record head))
    (heads : List β) : Honest bytes (Decoder.each record heads) := by
  induction heads with
  | nil => exact honest_pure _
  | cons head rest ih => exact (each head).bind fun _ => ih.bind fun _ => honest_pure _

end Records

section Tokens

theorem honest_nameCharacter : Honest bytes nameCharacter := by
  refine (stores_word rfl rfl).bind fun start code fits same => ?_
  split
  · exact behaves_pure _ fits
  · next unknown =>
    refine behaves_throw ⟨fits, same, ?_⟩
    rintro ⟨c, spells⟩
    have known : c.val = code := UInt32.toNat_inj.1 (Int.ofNat_inj.1 spells)
    rw [← known, Text.scalar?_val] at unknown
    cases unknown

theorem honest_name : Honest bytes name := by
  refine (honest_count rfl).bind fun length => ?_
  split
  · exact honest_pure _
  · refine (honest_many honest_nameCharacter length).bind fun chars => ?_
    refine (stores_word rfl rfl).bind fun start zero fits same => ?_
    split
    · exact behaves_pure _ fits
    · next nonzero =>
      exact behaves_throw ⟨fits, same, fun terminates =>
        nonzero (UInt32.toNat_inj.1 (Int.ofNat_inj.1 terminates))⟩

theorem honest_tokenFlags : Honest bytes tokenFlags :=
  (honest_flag rfl rfl fun _ _ => Iff.rfl).bind fun _ =>
    (honest_flag rfl rfl fun _ _ => Iff.rfl).bind fun _ => honest_pure _

theorem honest_token (flags : Bool × Bool) : Honest bytes (token flags) :=
  honest_name.bind fun _ => honest_pure _

end Tokens

section Automata

/-- A code without a recognition is below all that have one. -/
theorem ofCode?_eq_none {code : Int32} (unknown : Recognition.ofCode? code = none) :
    code.toInt < -4 := by
  unfold Recognition.ofCode? at unknown
  split_ifs at unknown with nonneg nothing start close follow
  rw [Int32.le_iff_toInt_le] at nonneg
  rw [← Int32.toInt_inj] at nothing start close follow
  change ¬0 ≤ code.toInt at nonneg
  change ¬code.toInt = -1 at nothing
  change ¬code.toInt = -2 at start
  change ¬code.toInt = -3 at close
  change ¬code.toInt = -4 at follow
  omega

theorem honest_lexHead : Honest bytes lexHead := by
  refine (stores_signed rfl rfl).bind fun start code fits same => ?_
  split
  · next unknown =>
    refine behaves_throw ⟨fits, same, fun admitted => ?_⟩
    exact Int.not_le.2 (ofCode?_eq_none unknown) admitted
  · exact ((honest_count rfl).bind fun _ =>
      (honest_count rfl).bind fun _ => honest_pure _) _ fits

theorem honest_epsilon : Honest bytes epsilon := by
  refine (honest_word rfl).bind fun target => ?_
  refine (stores_signed rfl rfl).bind fun start code fits same => ?_
  split
  · exact behaves_pure _ fits
  · next negative =>
    split
    · exact behaves_pure _ fits
    · next other =>
      refine behaves_throw ⟨fits, same, fun admitted => ?_⟩
      rw [Int32.le_iff_toInt_le] at negative
      rw [← Int32.toInt_inj] at other
      change ¬0 ≤ code.toInt at negative
      change ¬code.toInt = -1 at other
      change -1 ≤ code.toInt at admitted
      omega

theorem honest_signed {field : Field} (wide : field.width = 4) : Honest bytes (signed field) :=
  (honest_word wide).bind fun _ => honest_pure _

theorem honest_range : Honest bytes range :=
  (honest_word rfl).bind fun _ => (honest_signed rfl).bind fun _ =>
    (honest_signed rfl).bind fun _ => honest_pure _

theorem honest_lexState (head : LexHead) : Honest bytes (lexState head) :=
  (honest_many honest_epsilon _).bind fun _ => (honest_many honest_range _).bind fun _ =>
    honest_pure _

theorem honest_automaton (states : Nat) (maxDepth : UInt32) :
    Honest bytes (automaton states maxDepth) :=
  (honest_many honest_lexHead states).bind fun heads =>
    (honest_each honest_lexState heads).bind fun _ => honest_pure _

end Automata

section Parsers

theorem honest_action : Honest bytes action := by
  refine stores_byte.bind fun start b fits same => ?_
  split
  · next unknown =>
    refine behaves_throw ⟨fits, same, fun admitted => ?_⟩
    have small : b.toNat ≤ 3 := Int.ofNat_le.1 admitted
    unfold ActionKind.ofByte? at unknown
    split_ifs at unknown with zero one two three
    simp only [← UInt8.toNat_inj] at zero one two three
    change ¬b.toNat = 0 at zero
    change ¬b.toNat = 1 at one
    change ¬b.toNat = 2 at two
    change ¬b.toNat = 3 at three
    omega
  · exact ((honest_word rfl).bind fun _ => (honest_word rfl).bind fun _ =>
      (honest_word rfl).bind fun _ => honest_pure _) _ fits

theorem honest_parserState : Honest bytes parserState :=
  (honest_count rfl).bind fun n =>
    (honest_many honest_action n).bind fun _ => honest_pure _

theorem honest_goto : Honest bytes goto :=
  (honest_word rfl).bind fun _ => (honest_word rfl).bind fun _ => honest_pure _

theorem honest_nonterminal : Honest bytes nonterminal :=
  (honest_count rfl).bind fun attributes =>
    (honest_count rfl).bind fun gotos =>
    (honest_many (honest_word rfl) attributes).bind fun _ =>
      (honest_many honest_goto gotos).bind fun _ => honest_pure _

end Parsers

section Rules

theorem honest_semanticHead : Honest bytes semanticHead :=
  (honest_flag rfl rfl fun _ _ => Iff.rfl).bind fun _ => (honest_word rfl).bind fun _ =>
    (honest_word rfl).bind fun _ => (honest_word rfl).bind fun _ =>
    (honest_count rfl).bind fun _ => honest_pure _

theorem honest_parameter : Honest bytes parameter :=
  (honest_word rfl).bind fun _ => (honest_word rfl).bind fun _ => honest_pure _

theorem honest_semanticAction (head : SemanticHead) : Honest bytes (semanticAction head) :=
  (honest_many honest_parameter _).bind fun _ => honest_pure _

theorem honest_rule : Honest bytes rule :=
  (honest_word rfl).bind fun _ => (honest_word rfl).bind fun _ =>
    (honest_count rfl).bind fun n =>
    (honest_many honest_semanticHead n).bind fun heads =>
      (honest_each honest_semanticAction heads).bind fun _ => honest_pure _

theorem honest_recoveryEntry : Honest bytes recoveryEntry :=
  (honest_word rfl).bind fun _ => (honest_word rfl).bind fun _ => honest_pure _

theorem honest_recovery : Honest bytes recovery :=
  (honest_word rfl).bind fun _ => (honest_count rfl).bind fun n =>
    (honest_many honest_recoveryEntry n).bind fun _ => honest_pure _

end Rules

theorem honest_grammar : Honest bytes grammar := by
  refine (honest_count rfl).bind fun tokenCount =>
    (honest_count rfl).bind fun lexCount =>
    (honest_word rfl).bind fun lexDepth =>
    (honest_count rfl).bind fun commentCount =>
    (honest_word rfl).bind fun commentDepth =>
    (honest_count rfl).bind fun stateCount =>
    (honest_count rfl).bind fun nonterminalCount =>
    (honest_count rfl).bind fun ruleCount =>
    (honest_count rfl).bind fun recoveryCount => ?_
  exact (honest_many honest_tokenFlags _).bind fun flags =>
    (honest_each honest_token flags).bind fun _ => (honest_automaton _ _).bind fun _ =>
    (honest_automaton _ _).bind fun _ => (honest_many honest_parserState _).bind fun _ =>
    (honest_many honest_nonterminal _).bind fun _ => (honest_many honest_rule _).bind fun _ =>
    (honest_many honest_recovery _).bind fun _ => honest_pure _

end Decoder

/-- No byte is looked at outside the form, and what a refusal says is true: where the form is said to
be truncated, the field that is named does not fit into what is left, and where a code is said to be
bad, that code is stored there and the field does not admit it. -/
theorem refusals_point_at_the_fault (bytes : List UInt8) :
    (∃ accesses, Decoder.grammar.Makes ⟨0, bytes⟩ accesses ∧
      ∀ a ∈ accesses, a.offset ≤ bytes.length ∧
        (a.offset + a.width ≤ bytes.length ∨
          ∃ field, Grammar.decode bytes = .error (.truncated a.offset field))) ∧
    ∀ e, Grammar.decode bytes = .error e → e.TrueOf bytes := by
  have behaves : Decoder.Behaves bytes 0 Decoder.grammar :=
    Decoder.honest_grammar 0 (Nat.zero_le _)
  have start : Stream.place bytes 0 = ⟨0, bytes⟩ := rfl
  obtain ⟨accesses, makes, minds⟩ := behaves.accesses
  rw [start] at makes minds
  refine ⟨⟨accesses, makes, fun a mem => ?_⟩, fun e refused => ?_⟩
  · refine ⟨(minds a mem).1, (minds a mem).2.imp_right fun ⟨field, truncated⟩ => ⟨field, ?_⟩⟩
    rw [Grammar.decode, truncated]
    rfl
  · unfold Grammar.decode at refused
    cases result : Decoder.grammar ⟨0, bytes⟩ with
    | error e' =>
      rw [result] at refused
      cases refused
      exact behaves.refuses e result
    | ok read =>
      obtain ⟨g, s⟩ := read
      obtain ⟨next, inside, rfl⟩ := behaves.returns g s result
      rw [result, ok_bind] at refused
      dsimp only [Stream.place] at refused
      split at refused
      · unfold Grammar.checked at refused
        split at refused
        · cases refused
        · cases refused
          exact trivial
      · next more =>
        cases refused
        rw [List.isEmpty_iff_length_eq_zero, List.length_drop] at more
        simp only [LoadError.TrueOf, List.length_drop]
        omega

/-- A form cut within its first count, and one whose first flag is neither zero nor one. -/
theorem keyword_form_is_blamed_where_it_is_wrong :
    Grammar.decode (Samples.Keyword.grammar.encode.take 2) = .error (.truncated 0 .tokenCount) ∧
    (LoadError.truncated 0 .tokenCount).TrueOf (Samples.Keyword.grammar.encode.take 2) ∧
    Grammar.decode (Samples.Keyword.grammar.encode.set 36 7) =
      .error (.badCode .significantFlag 7 36) ∧
    (LoadError.badCode .significantFlag 7 36).TrueOf (Samples.Keyword.grammar.encode.set 36 7) := by
  have cut : Grammar.decode (Samples.Keyword.grammar.encode.take 2) =
      .error (.truncated 0 .tokenCount) := rfl
  have bad : Grammar.decode (Samples.Keyword.grammar.encode.set 36 7) =
      .error (.badCode .significantFlag 7 36) := rfl
  exact ⟨cut, (refusals_point_at_the_fault _).2 _ cut, bad, (refusals_point_at_the_fault _).2 _ bad⟩

end GrammarMachine
