import GrammarMachine.Proofs.Grammar.RoundTrip

/-!
The binary form is canonical: a grammar is read from its own binary form and from nothing else.
`Takes d written` says that whatever `d` returns, the bytes it took are as `written` says. The
decoder of every part takes only what is written for the value it returns; lists whose heads stand
in front are put together again from the two places they were taken from.
-/

namespace GrammarMachine

theorem Recognition.code_of_ofCode? {code : Int32} {r : Recognition}
    (known : ofCode? code = some r) : r.code = code := by
  have same := Int32.toInt32_toUInt32 code
  grind [ofCode?, Recognition.code]

theorem ActionKind.byte_of_ofByte? {b : UInt8} {k : ActionKind} (known : ofByte? b = some k) :
    k.byte = b := by
  grind [ofByte?, byte]

theorem Text.val_of_scalar? {code : UInt32} {c : Char} (known : scalar? code = some c) :
    c.val = code := by
  grind [scalar?]

namespace Decoder

variable {α β : Type} {d : Decoder α} {write : α → List UInt8} {P : α → List UInt8 → Prop}

/-- Whatever `d` returns, it took bytes of which `written` holds. -/
def Takes (d : Decoder α) (written : α → List UInt8 → Prop) : Prop :=
  ∀ s s' x, d s = .ok (x, s') → ∃ bytes, s.rest = bytes ++ s'.rest ∧ written x bytes

/-- `d` takes what `write` makes of the value that it returns. -/
abbrev TakesAs (d : Decoder α) (write : α → List UInt8) : Prop :=
  d.Takes fun x bytes => bytes = write x

theorem takes_pure {x : α} (nothing : P x []) : Takes (pure x) P := by
  intro s s' y result
  cases result
  exact ⟨[], rfl, nothing⟩

theorem takes_throw (e : LoadError) : Takes (throw e) P := by
  intro s s' x result
  cases result

theorem Takes.bind {f : α → Decoder β} {Q : β → List UInt8 → Prop} (first : d.Takes P)
    (second : ∀ x bytes, P x bytes → (f x).Takes fun y more => Q y (bytes ++ more)) :
    (d >>= f).Takes Q := by
  intro s s' y result
  change (d s >>= fun read => f read.1 read.2) = _ at result
  obtain ⟨⟨x, between⟩, head, tail⟩ := bind_eq_ok_iff.1 result
  obtain ⟨bytes, taken, holds⟩ := first s between x head
  obtain ⟨more, rest, whole⟩ := second x bytes holds between s' y tail
  exact ⟨bytes ++ more, by rw [taken, rest, List.append_assoc], whole⟩

/-- A field in front of others. -/
theorem Takes.next {f : α → Decoder β} {Q : β → List UInt8 → Prop} (first : d.TakesAs write)
    (second : ∀ x, (f x).Takes fun y more => Q y (write x ++ more)) : (d >>= f).Takes Q :=
  first.bind fun x _ same => same ▸ second x

/-- The last field of a record. -/
theorem Takes.last {f : α → β} {write' : β → List UInt8} {front : List UInt8}
    (first : d.TakesAs write) (whole : ∀ x, front ++ write x = write' (f x)) :
    (d >>= fun x => pure (f x)).Takes fun y more => front ++ more = write' y := by
  refine first.next fun x => takes_pure ?_
  rw [List.append_nil]
  exact whole x

theorem takes_offset {f : Nat → Decoder β} {Q : β → List UInt8 → Prop}
    (each : ∀ start, (f start).Takes Q) : (offset >>= f).Takes Q :=
  fun s => each s.offset s

theorem takes_byte (field : Field) : (byte field).TakesAs fun b => [b] := by
  intro s s' b result
  unfold byte at result
  split at result
  · next rest same =>
    cases result
    exact ⟨[b], same, rfl⟩
  · cases result

theorem takes_word (field : Field) : (word field).TakesAs Binary.word := by
  intro s s' w result
  unfold word at result
  split at result
  · next a b c d rest same =>
    cases result
    exact ⟨[a, b, c, d], same, (wordBytes_wordOf a b c d).symm⟩
  · cases result

theorem takes_signed (field : Field) : (signed field).TakesAs Binary.signed := by
  refine (takes_word field).next fun w => takes_pure ?_
  rw [List.append_nil, Binary.signed, UInt32.toUInt32_toInt32]
  rfl

theorem takes_flag (field : Field) : (flag field).TakesAs Binary.flag := by
  refine takes_offset fun start => (takes_word field).next fun w => ?_
  split
  · next zero => exact takes_pure (by rw [zero]; rfl)
  · split
    · next one => exact takes_pure (by rw [one]; rfl)
    · exact takes_throw _

theorem takes_count (field : Field) : (count field).TakesAs Binary.size := by
  refine takes_offset fun start => (takes_word field).next fun w => ?_
  intro s s' n result
  change (if atLeast (w.toNat * field.recordSize) s.rest then pure w.toNat
    else throw (.badCode field w.toNat start) : Decoder Nat) s = _ at result
  split at result
  · cases result
    refine ⟨[], rfl, ?_⟩
    change Binary.word w ++ [] = Binary.size w.toNat
    rw [List.append_nil, Binary.size, Nat.toUInt32_eq, UInt32.ofNat_toNat]
    rfl
  · cases result

section Records

/-- Records one behind the other, as many as were asked for. -/
theorem takes_many (each : d.TakesAs write) (n : Nat) :
    (many d n).Takes fun xs bytes => bytes = xs.flatMap write ∧ xs.length = n := by
  induction n with
  | zero => exact takes_pure ⟨rfl, rfl⟩
  | succ n ih =>
    refine each.next fun x => ih.bind fun xs bytes ⟨same, length⟩ => takes_pure ⟨?_, ?_⟩
    · rw [same, List.append_nil, List.flatMap_cons]
    · rw [List.length_cons, length]

/-- Records whose heads have been read before: each has the head it was read for. -/
theorem takes_each {record : β → Decoder α} {view : α → β}
    (each : ∀ head, (record head).Takes fun x bytes => bytes = write x ∧ view x = head)
    (heads : List β) :
    (Decoder.each record heads).Takes fun xs bytes =>
      bytes = xs.flatMap write ∧ xs.map view = heads := by
  induction heads with
  | nil => exact takes_pure ⟨rfl, rfl⟩
  | cons head rest ih =>
    refine (each head).bind fun x bytes ⟨first, seen⟩ => ih.bind fun xs more ⟨others, views⟩ =>
      takes_pure ⟨?_, ?_⟩
    · rw [first, others, List.append_nil, List.flatMap_cons]
    · rw [List.map_cons, seen, views]

end Records

section Tokens

theorem takes_tokenFlags :
    tokenFlags.TakesAs fun flags => Binary.flag flags.1 ++ Binary.flag flags.2 :=
  (takes_flag _).next fun _ => (takes_flag _).last fun _ => rfl

theorem takes_nameCharacter : nameCharacter.TakesAs fun c => Binary.word c.val := by
  refine takes_offset fun start => (takes_word _).next fun code => ?_
  split
  · next c known =>
    rw [← Text.val_of_scalar? known]
    exact takes_pure (List.append_nil _)
  · exact takes_throw _

theorem takes_name : name.TakesAs Binary.name := by
  refine (takes_count .nameLength).next fun length => ?_
  split
  · next zero => exact takes_pure (by rw [zero]; rfl)
  · next positive =>
    refine (takes_many takes_nameCharacter length).bind fun chars bytes ⟨same, count⟩ => ?_
    refine takes_offset fun start => (takes_word .nameTerminator).next fun zero => ?_
    split
    · next terminated =>
      refine takes_pure ?_
      have some_char : chars.isEmpty = false := by
        cases chars with
        | nil => exact absurd count.symm positive
        | cons c rest => rfl
      rw [same, terminated, ← count, List.append_nil, Binary.name]
      simp [some_char]
    · exact takes_throw _

theorem takes_token (flags : Bool × Bool) :
    (token flags).Takes fun t bytes =>
      bytes = Binary.name t.name ∧ (t.significant, t.carriesValue) = flags :=
  takes_name.next fun _ => takes_pure ⟨List.append_nil _, rfl⟩

end Tokens

section Automata

/-- What is written for a head. -/
def LexHead.bytes (head : LexHead) : List UInt8 :=
  Binary.signed head.recognized.code ++ Binary.size head.ranges ++ Binary.size head.epsilons

theorem takes_lexHead : lexHead.TakesAs LexHead.bytes := by
  refine takes_offset fun start => (takes_signed _).next fun code => ?_
  split
  · exact takes_throw _
  · next recognized known =>
    rw [← Recognition.code_of_ofCode? known]
    refine (takes_count _).next fun ranges => (takes_count _).next fun epsilons => takes_pure ?_
    simp [LexHead.bytes]

theorem takes_epsilon : epsilon.TakesAs Binary.epsilon := by
  refine (takes_word _).next fun target => takes_offset fun start => ?_
  refine (takes_signed _).next fun code => ?_
  split
  · exact takes_pure (by simp [Binary.epsilon])
  · split
    · next none => exact takes_pure (by simp [Binary.epsilon, none])
    · exact takes_throw _

theorem takes_range : range.TakesAs Binary.range :=
  (takes_word _).next fun _ => (takes_signed _).next fun _ => (takes_signed _).next fun _ =>
    takes_pure (by simp [Binary.range])

theorem takes_lexState (head : LexHead) :
    (lexState head).Takes fun s bytes => bytes = Binary.lexBody s ∧ LexHead.of s = head := by
  refine (takes_many takes_epsilon _).bind fun epsilons first ⟨first_eq, epsilon_count⟩ => ?_
  refine (takes_many takes_range _).bind fun ranges second ⟨second_eq, range_count⟩ => ?_
  refine takes_pure ⟨?_, ?_⟩
  · simp [Binary.lexBody, first_eq, second_eq]
  · simp [LexHead.of, epsilon_count, range_count]

theorem takes_automaton (states : Nat) (maxDepth : UInt32) :
    (automaton states maxDepth).Takes fun a bytes =>
      bytes = Binary.automaton a ∧ a.states.size = states ∧ a.maxDepth = maxDepth := by
  refine (takes_many takes_lexHead states).bind fun heads first ⟨first_eq, count⟩ => ?_
  refine (takes_each takes_lexState heads).bind fun parts second ⟨second_eq, views⟩ => ?_
  refine takes_pure ⟨?_, ?_, rfl⟩
  · subst views
    rw [first_eq, second_eq, List.append_nil, List.flatMap_map]
    rfl
  · rw [← count, ← views, List.length_map, List.size_toArray]

end Automata

section Parsers

theorem takes_action : action.TakesAs Binary.action := by
  refine takes_offset fun start => (takes_byte _).next fun b => ?_
  split
  · exact takes_throw _
  · next kind known =>
    rw [← ActionKind.byte_of_ofByte? known]
    refine (takes_word _).next fun low => (takes_word _).next fun high =>
      (takes_word _).next fun aux => takes_pure ?_
    simp [Binary.action]

theorem takes_parserState : parserState.TakesAs Binary.parserState := by
  refine (takes_count _).next fun n => (takes_many takes_action n).bind ?_
  intro actions bytes ⟨same, count⟩
  refine takes_pure ?_
  simp [Binary.parserState, same, count]

theorem takes_goto : goto.TakesAs Binary.goto :=
  (takes_word _).next fun _ => (takes_word _).last fun _ => rfl

theorem takes_nonterminal : nonterminal.TakesAs Binary.nonterminal := by
  refine (takes_count _).next fun attributes => (takes_count _).next fun gotos => ?_
  refine (takes_many (takes_word _) attributes).bind fun types first ⟨first_eq, type_count⟩ => ?_
  refine (takes_many takes_goto gotos).bind fun pairs second ⟨second_eq, pair_count⟩ => ?_
  refine takes_pure ?_
  simp [Binary.nonterminal, first_eq, second_eq, type_count, pair_count]

end Parsers

section Rules

/-- What is written for a head. -/
def SemanticHead.bytes (head : SemanticHead) : List UInt8 :=
  Binary.flag head.soft ++ Binary.slot head.target ++ Binary.word head.function
    ++ Binary.size head.params

theorem takes_semanticHead : semanticHead.TakesAs SemanticHead.bytes := by
  refine (takes_flag _).next fun soft => (takes_word _).next fun depth =>
    (takes_word _).next fun index => (takes_word _).next fun function =>
      (takes_count _).next fun count => takes_pure ?_
  simp [SemanticHead.bytes, Binary.slot]

theorem takes_parameter : parameter.TakesAs Binary.slot :=
  (takes_word _).next fun _ => (takes_word _).last fun _ => rfl

theorem takes_semanticAction (head : SemanticHead) :
    (semanticAction head).Takes fun a bytes => bytes = params a ∧ SemanticHead.of a = head := by
  refine (takes_many takes_parameter _).bind fun slots bytes ⟨same, count⟩ => takes_pure ⟨?_, ?_⟩
  · rw [same, List.append_nil]
    rfl
  · simp [SemanticHead.of, count]

theorem takes_rule : rule.TakesAs Binary.rule := by
  refine (takes_word _).next fun length => (takes_word _).next fun lhs =>
    (takes_count _).next fun n => ?_
  refine (takes_many takes_semanticHead n).bind fun heads first ⟨first_eq, count⟩ => ?_
  refine (takes_each takes_semanticAction heads).bind fun actions second ⟨second_eq, views⟩ => ?_
  subst views
  rw [List.length_map] at count
  refine takes_pure ?_
  simp only [first_eq, second_eq, ← count, List.append_nil, List.flatMap_map, Binary.rule,
    List.size_toArray, List.append_assoc]
  rfl

theorem takes_recoveryEntry : recoveryEntry.TakesAs Binary.recoveryEntry :=
  (takes_word _).next fun _ => (takes_word _).last fun _ => rfl

theorem takes_recovery : recovery.TakesAs Binary.recovery := by
  refine (takes_word _).next fun terminal => (takes_count _).next fun n => ?_
  refine (takes_many takes_recoveryEntry n).bind fun entries bytes ⟨same, count⟩ => takes_pure ?_
  simp [Binary.recovery, same, count]

end Rules

/-- The counts of the header are those of the sections behind it. -/
theorem takes_grammar : grammar.TakesAs Grammar.encode := by
  refine (takes_count _).next fun tokenCount => (takes_count _).next fun lexCount =>
    (takes_word _).next fun lexDepth => (takes_count _).next fun commentCount =>
    (takes_word _).next fun commentDepth => (takes_count _).next fun stateCount =>
    (takes_count _).next fun nonterminalCount => (takes_count _).next fun ruleCount =>
    (takes_count _).next fun recoveryCount => ?_
  refine (takes_many takes_tokenFlags _).bind fun flags flagBytes ⟨flags_eq, flag_count⟩ => ?_
  refine (takes_each takes_token flags).bind fun tokens nameBytes ⟨names_eq, views⟩ => ?_
  refine (takes_automaton _ _).bind fun lexer _ ⟨lexer_eq, lex_count, lex_depth⟩ => ?_
  refine (takes_automaton _ _).bind fun comments _ ⟨comments_eq, comment_count, comment_depth⟩ => ?_
  refine (takes_many takes_parserState _).bind fun states _ ⟨states_eq, state_count⟩ => ?_
  refine (takes_many takes_nonterminal _).bind fun nonterminals _ ⟨nonterminals_eq, nt_count⟩ => ?_
  refine (takes_many takes_rule _).bind fun rules _ ⟨rules_eq, rule_count⟩ => ?_
  refine (takes_many takes_recovery _).bind fun recoveries _ ⟨recoveries_eq, recovery_count⟩ => ?_
  subst views
  rw [List.length_map] at flag_count
  refine takes_pure ?_
  simp only [Grammar.encode, Binary.header, flags_eq, names_eq, lexer_eq, comments_eq, states_eq,
    nonterminals_eq, rules_eq, recoveries_eq, ← flag_count, ← lex_count, ← lex_depth,
    ← comment_count, ← comment_depth, ← state_count, ← nt_count, ← rule_count, ← recovery_count,
    List.flatMap_map, List.size_toArray, List.append_assoc, List.append_nil]
  rfl

end Decoder

theorem Grammar.check_of_checked {g g' : Grammar} (passed : g.checked = .ok g') :
    g = g' ∧ g.check = .ok () := by
  unfold checked at passed
  split at passed
  · next valid =>
    cases passed
    exact ⟨rfl, valid⟩
  · cases passed

theorem Grammar.encode_of_decode {bytes : List UInt8} {g : Grammar}
    (decoded : Grammar.decode bytes = .ok g) : g.encode = bytes ∧ g.check = .ok () := by
  obtain ⟨⟨read, rest⟩, taken, passed⟩ := bind_eq_ok_iff.1 decoded
  obtain ⟨whole, split, rfl⟩ := Decoder.takes_grammar _ _ _ taken
  dsimp only at passed
  split at passed
  · next empty =>
    obtain ⟨rfl, valid⟩ := check_of_checked passed
    rw [List.isEmpty_iff.1 empty, List.append_nil] at split
    exact ⟨split.symm, valid⟩
  · cases passed

/-- Only its own binary form is read as a grammar, and that grammar has passed its check. So no two
byte strings are read as the same grammar. -/
theorem binary_form_is_canonical {bytes : List UInt8} {g : Grammar}
    (decoded : Grammar.decode bytes = .ok g) :
    g.encode = bytes ∧ g.check = .ok () ∧
      ∀ other, Grammar.decode other = .ok g → other = bytes := by
  obtain ⟨same, valid⟩ := Grammar.encode_of_decode decoded
  refine ⟨same, valid, fun other decoded' => ?_⟩
  rw [← same]
  exact (Grammar.encode_of_decode decoded').1.symm

/-- A form with two automata, a guarded transition and a token without a name. -/
theorem keyword_form_is_canonical :
    Grammar.decode Samples.Keyword.grammar.encode = .ok Samples.Keyword.grammar ∧
      Samples.Keyword.grammar.check = .ok () ∧
      ∀ other, Grammar.decode other = .ok Samples.Keyword.grammar →
        other = Samples.Keyword.grammar.encode := by
  have decoded : Grammar.decode Samples.Keyword.grammar.encode = .ok Samples.Keyword.grammar :=
    eq_ok_of_toOption (by decide +kernel)
  exact ⟨decoded, (binary_form_is_canonical decoded).2⟩

end GrammarMachine
