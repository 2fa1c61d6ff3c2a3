import GrammarMachine.Grammar.Load
import GrammarMachine.Proofs.Success
import GrammarMachine.Samples.Keyword

/-!
No binary form begins another. A decoder is steady if bytes added behind what it reads change
nothing, and bytes taken away leave it nothing to find but that they are missing: it runs into the
end, or meets a count of records that no longer fit. Every decoder is steady, so a form with
something behind it is refused for just that, and a form cut short for being short.
-/

namespace GrammarMachine

/-- Fields that tell how many records follow. -/
def Field.isCount (field : Field) : Bool := field.recordSize != 0

/-- The bytes end too early: within a field, or before the records of a count. -/
inductive LoadError.Short : LoadError → Prop
  | truncated (offset : Nat) (field : Field) : Short (.truncated offset field)
  | count {field : Field} (value : Int) (offset : Nat) (count : field.isCount = true) :
      Short (.badCode field value offset)

namespace Decoder

variable {α β : Type} {d : Decoder α}

/-- What `d` returns does not depend on the bytes behind those it takes. -/
structure Steady (d : Decoder α) : Prop where
  more : ∀ {start : Nat} {bytes : List UInt8} {x : α} {s : Stream}, d ⟨start, bytes⟩ = .ok (x, s) →
    ∀ behind, d ⟨start, bytes ++ behind⟩ = .ok (x, ⟨s.offset, s.rest ++ behind⟩)
  less : ∀ {start : Nat} {front behind : List UInt8} {x : α} {s : Stream},
    d ⟨start, front ++ behind⟩ = .ok (x, s) →
      (∃ left, d ⟨start, front⟩ = .ok (x, ⟨s.offset, left⟩) ∧ s.rest = left ++ behind) ∨
        ∃ e, d ⟨start, front⟩ = .error e ∧ e.Short

theorem bind_apply (d : Decoder α) (f : α → Decoder β) (s : Stream) :
    (d >>= f) s = d s >>= fun read => f read.1 read.2 := rfl

theorem steady_pure (x : α) : Steady (pure x) where
  more result _ := by
    cases result
    rfl
  less result := by
    cases result
    exact .inl ⟨_, rfl, rfl⟩

theorem steady_throw (e : LoadError) : Steady (throw e : Decoder α) where
  more result := nomatch result
  less result := nomatch result

theorem Steady.bind {f : α → Decoder β} (first : d.Steady) (second : ∀ x, (f x).Steady) :
    (d >>= f).Steady where
  more {start bytes y s} result behind := by
    rw [bind_apply] at result
    obtain ⟨⟨x, between⟩, head, tail⟩ := bind_eq_ok_iff.1 result
    rw [bind_apply, first.more head behind, ok_bind]
    exact (second x).more tail behind
  less {start front behind y s} result := by
    rw [bind_apply] at result
    obtain ⟨⟨x, between⟩, head, tail⟩ := bind_eq_ok_iff.1 result
    rw [bind_apply]
    rcases first.less head with ⟨left, taken, rest⟩ | ⟨e, refused, short⟩
    · rw [taken, ok_bind]
      obtain ⟨offset, _⟩ := between
      cases rest
      exact (second x).less tail
    · rw [refused]
      exact .inr ⟨e, rfl, short⟩

theorem steady_offset : offset.Steady where
  more result _ := by
    cases result
    rfl
  less result := by
    cases result
    exact .inl ⟨_, rfl, rfl⟩

theorem steady_byte (field : Field) : (byte field).Steady where
  more {start bytes x s} result behind := by
    cases bytes with
    | nil => cases result
    | cons b rest =>
      cases result
      rfl
  less {start front behind x s} result := by
    cases front with
    | nil => exact .inr ⟨_, rfl, .truncated start field⟩
    | cons b rest =>
      cases result
      exact .inl ⟨rest, rfl, rfl⟩

theorem steady_word (field : Field) : (word field).Steady where
  more {start bytes x s} result behind := by
    unfold word at result
    split at result
    · next a b c d rest same =>
      cases result
      cases same
      rfl
    · cases result
  less {start front behind x s} result := by
    match front with
    | a :: b :: c :: d :: rest =>
      cases result
      exact .inl ⟨rest, rfl, rfl⟩
    | [] | [_] | [_, _] | [_, _, _] => exact .inr ⟨_, rfl, .truncated start field⟩

/-- Asks for room: a count is refused where its records do not fit, and only there. -/
theorem steady_room (field : Field) (n start : Nat) : Steady (do
    if atLeast (n * field.recordSize) (← get).rest then return n
    throw (.badCode field n start) : Decoder Nat) := by
  have eq (at_ : Nat) (bytes : List UInt8) : (do
      if atLeast (n * field.recordSize) (← get).rest then return n
      throw (.badCode field n start) : Decoder Nat) ⟨at_, bytes⟩ =
        if n * field.recordSize ≤ bytes.length then .ok (n, ⟨at_, bytes⟩)
        else .error (.badCode field n start) := by
    simp only [← atLeast_iff]
    change (if atLeast (n * field.recordSize) bytes then pure n
      else throw (.badCode field n start) : Decoder Nat) ⟨at_, bytes⟩ = _
    split <;> rfl
  constructor
  · intro at_ bytes x s result behind
    rw [eq] at result ⊢
    split at result
    · next enough =>
      cases result
      rw [if_pos (by rw [List.length_append]; omega)]
    · cases result
  · intro at_ front behind x s result
    rw [eq] at result ⊢
    split at result
    · cases result
      split
      · exact .inl ⟨front, rfl, rfl⟩
      · next missing =>
        refine .inr ⟨_, rfl, .count _ _ ?_⟩
        rw [Field.isCount, bne_iff_ne]
        intro none
        exact missing (by simp [none])
    · cases result

theorem steady_count (field : Field) : (count field).Steady :=
  steady_offset.bind fun start => (steady_word field).bind fun w => steady_room field w.toNat start

theorem steady_signed (field : Field) : (signed field).Steady :=
  (steady_word field).bind fun _ => steady_pure _

theorem steady_flag (field : Field) : (flag field).Steady := by
  refine steady_offset.bind fun start => (steady_word field).bind fun w => ?_
  split
  · exact steady_pure _
  · split
    · exact steady_pure _
    · exact steady_throw _

section Records

theorem steady_many (each : d.Steady) (n : Nat) : (many d n).Steady := by
  induction n with
  | zero => exact steady_pure _
  | succ n ih => exact each.bind fun _ => ih.bind fun _ => steady_pure _

theorem steady_each {record : β → Decoder α} (each : ∀ head, (record head).Steady)
    (heads : List β) : (Decoder.each record heads).Steady := by
  induction heads with
  | nil => exact steady_pure _
  | cons head rest ih => exact (each head).bind fun _ => ih.bind fun _ => steady_pure _

end Records

theorem steady_nameCharacter : nameCharacter.Steady := by
  refine steady_offset.bind fun start => (steady_word _).bind fun code => ?_
  split
  · exact steady_pure _
  · exact steady_throw _

theorem steady_name : name.Steady := by
  refine (steady_count _).bind fun length => ?_
  split
  · exact steady_pure _
  · refine (steady_many steady_nameCharacter length).bind fun chars => ?_
    refine steady_offset.bind fun start => (steady_word _).bind fun zero => ?_
    split
    · exact steady_pure _
    · exact steady_throw _

theorem steady_tokenFlags : tokenFlags.Steady :=
  (steady_flag _).bind fun _ => (steady_flag _).bind fun _ => steady_pure _

theorem steady_token (flags : Bool × Bool) : (token flags).Steady :=
  steady_name.bind fun _ => steady_pure _

theorem steady_lexHead : lexHead.Steady := by
  refine steady_offset.bind fun start => (steady_signed _).bind fun code => ?_
  split
  · exact steady_throw _
  · exact (steady_count _).bind fun _ => (steady_count _).bind fun _ => steady_pure _

theorem steady_epsilon : epsilon.Steady := by
  refine (steady_word _).bind fun target => steady_offset.bind fun start => ?_
  refine (steady_signed _).bind fun code => ?_
  split
  · exact steady_pure _
  · split
    · exact steady_pure _
    · exact steady_throw _

theorem steady_range : range.Steady :=
  (steady_word _).bind fun _ => (steady_signed _).bind fun _ => (steady_signed _).bind fun _ =>
    steady_pure _

theorem steady_lexState (head : LexHead) : (lexState head).Steady :=
  (steady_many steady_epsilon _).bind fun _ => (steady_many steady_range _).bind fun _ =>
    steady_pure _

theorem steady_automaton (states : Nat) (maxDepth : UInt32) : (automaton states maxDepth).Steady :=
  (steady_many steady_lexHead states).bind fun heads =>
    (steady_each steady_lexState heads).bind fun _ => steady_pure _

theorem steady_action : action.Steady := by
  refine steady_offset.bind fun start => (steady_byte _).bind fun b => ?_
  split
  · exact steady_throw _
  · exact (steady_word _).bind fun _ => (steady_word _).bind fun _ => (steady_word _).bind fun _ =>
      steady_pure _

theorem steady_parserState : parserState.Steady :=
  (steady_count _).bind fun n => (steady_many steady_action n).bind fun _ => steady_pure _

theorem steady_goto : goto.Steady :=
  (steady_word _).bind fun _ => (steady_word _).bind fun _ => steady_pure _

theorem steady_nonterminal : nonterminal.Steady :=
  (steady_count _).bind fun attributes => (steady_count _).bind fun gotos =>
    (steady_many (steady_word _) attributes).bind fun _ =>
      (steady_many steady_goto gotos).bind fun _ => steady_pure _

theorem steady_semanticHead : semanticHead.Steady :=
  (steady_flag _).bind fun _ => (steady_word _).bind fun _ => (steady_word _).bind fun _ =>
    (steady_word _).bind fun _ => (steady_count _).bind fun _ => steady_pure _

theorem steady_parameter : parameter.Steady :=
  (steady_word _).bind fun _ => (steady_word _).bind fun _ => steady_pure _

theorem steady_semanticAction (head : SemanticHead) : (semanticAction head).Steady :=
  (steady_many steady_parameter _).bind fun _ => steady_pure _

theorem steady_rule : rule.Steady :=
  (steady_word _).bind fun _ => (steady_word _).bind fun _ => (steady_count _).bind fun n =>
    (steady_many steady_semanticHead n).bind fun heads =>
      (steady_each steady_semanticAction heads).bind fun _ => steady_pure _

theorem steady_recoveryEntry : recoveryEntry.Steady :=
  (steady_word _).bind fun _ => (steady_word _).bind fun _ => steady_pure _

theorem steady_recovery : recovery.Steady :=
  (steady_word _).bind fun _ => (steady_count _).bind fun n =>
    (steady_many steady_recoveryEntry n).bind fun _ => steady_pure _

/-- The counts of the header and the sections behind it. -/
theorem steady_grammar : grammar.Steady := by
  refine (steady_count _).bind fun tokenCount => (steady_count _).bind fun lexCount =>
    (steady_word _).bind fun lexDepth => (steady_count _).bind fun commentCount =>
    (steady_word _).bind fun commentDepth => (steady_count _).bind fun stateCount =>
    (steady_count _).bind fun nonterminalCount => (steady_count _).bind fun ruleCount =>
    (steady_count _).bind fun recoveryCount => ?_
  exact (steady_many steady_tokenFlags _).bind fun flags =>
    (steady_each steady_token flags).bind fun _ => (steady_automaton _ _).bind fun _ =>
    (steady_automaton _ _).bind fun _ => (steady_many steady_parserState _).bind fun _ =>
    (steady_many steady_nonterminal _).bind fun _ => (steady_many steady_rule _).bind fun _ =>
    (steady_many steady_recovery _).bind fun _ => steady_pure _

end Decoder

/-- An accepted form is taken to its last byte. -/
theorem Grammar.takes_all_of_decode {bytes : List UInt8} {g : Grammar}
    (decoded : Grammar.decode bytes = .ok g) :
    ∃ read offset, Decoder.grammar ⟨0, bytes⟩ = .ok (read, ⟨offset, []⟩) := by
  obtain ⟨⟨read, ⟨offset, rest⟩⟩, taken, passed⟩ := bind_eq_ok_iff.1 decoded
  dsimp only at passed
  split at passed
  · next empty => exact ⟨read, offset, List.isEmpty_iff.1 empty ▸ taken⟩
  · cases passed

/-- With bytes behind it, an accepted form is refused for as many trailing bytes; cut short, it is
refused for being short. -/
theorem accepted_forms_are_prefixFree {bytes : List UInt8} {g : Grammar}
    (decoded : Grammar.decode bytes = .ok g) :
    (∀ behind, behind ≠ [] →
      Grammar.decode (bytes ++ behind) = .error (.trailing behind.length)) ∧
    ∀ front, front <+: bytes → front ≠ bytes →
      ∃ e, Grammar.decode front = .error e ∧ e.Short := by
  obtain ⟨read, offset, taken⟩ := Grammar.takes_all_of_decode decoded
  constructor
  · intro behind some_byte
    have longer := Decoder.steady_grammar.more taken behind
    simp [Grammar.decode, longer, some_byte]
  · rintro front ⟨behind, rfl⟩ strict
    rcases Decoder.steady_grammar.less taken with ⟨left, _, rest⟩ | ⟨e, refused, short⟩
    · obtain ⟨_, none⟩ := List.append_eq_nil_iff.1 rest.symm
      exact absurd (by rw [none, List.append_nil]) strict
    · refine ⟨e, ?_, short⟩
      rw [Grammar.decode, refused]
      rfl

/-- The form of a grammar, cut within its first count and lengthened by a byte. -/
theorem keyword_form_is_prefixFree :
    Grammar.decode Samples.Keyword.grammar.encode = .ok Samples.Keyword.grammar ∧
    Grammar.decode (Samples.Keyword.grammar.encode ++ [0]) = .error (.trailing 1) ∧
    ∃ e, Grammar.decode (Samples.Keyword.grammar.encode.take 2) = .error e ∧ e.Short := by
  have decoded : Grammar.decode Samples.Keyword.grammar.encode = .ok Samples.Keyword.grammar :=
    eq_ok_of_toOption (by decide +kernel)
  obtain ⟨longer, shorter⟩ := accepted_forms_are_prefixFree decoded
  exact ⟨decoded, longer [0] (by decide), shorter _ (List.take_prefix _ _) (by decide +kernel)⟩

end GrammarMachine
