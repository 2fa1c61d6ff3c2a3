import GrammarMachine.Grammar.Load
import GrammarMachine.Proofs.Grammar.Sound
import GrammarMachine.Samples.Keyword

/-!
Decoding undoes encoding. `Reads d bytes x need` says that `d` takes exactly `bytes` and returns `x`
wherever at least `need` more bytes follow: a count is read before the records that it counts, and
is refused where they would not fit. Each part of the format is read back by the decoder of its
name, and a whole grammar by putting the parts together.
-/

namespace GrammarMachine

namespace Binary

/-- Lengths stay below this bound, so that they are signed words too. -/
def limit : Nat := 0x80000000

@[simp] theorem length_word (w : UInt32) : (word w).length = 4 := rfl

@[simp] theorem length_signed (w : Int32) : (signed w).length = 4 := rfl

@[simp] theorem length_size (n : Nat) : (size n).length = 4 := rfl

@[simp] theorem length_flag (b : Bool) : (flag b).length = 4 := rfl

@[simp] theorem length_tokenFlags (t : TokenInfo) : (tokenFlags t).length = 8 := rfl

@[simp] theorem length_lexHead (s : LexState) : (lexHead s).length = 12 := rfl

@[simp] theorem length_epsilon (e : Epsilon) : (epsilon e).length = 8 := rfl

@[simp] theorem length_range (r : CharRange) : (range r).length = 12 := rfl

@[simp] theorem length_action (a : Action) : (action a).length = 13 := rfl

@[simp] theorem length_goto (p : Goto) : (goto p).length = 8 := rfl

@[simp] theorem length_slot (s : Slot) : (slot s).length = 8 := rfl

@[simp] theorem length_semanticHead (a : SemanticAction) : (semanticHead a).length = 20 := rfl

@[simp] theorem length_recoveryEntry (e : RecoveryEntry) : (recoveryEntry e).length = 8 := rfl

theorem le_length_parserState (s : ParserState) : 4 ≤ (parserState s).length := by
  simp [parserState]

theorem le_length_nonterminal (n : Nonterminal) : 8 ≤ (nonterminal n).length := by
  simp only [nonterminal, List.length_append, length_size]
  omega

theorem le_length_rule (r : Rule) : 12 ≤ (rule r).length := by
  simp only [rule, List.length_append, length_size, length_word]
  omega

theorem le_length_recovery (r : Recovery) : 8 ≤ (recovery r).length := by
  simp only [recovery, List.length_append, length_size, length_word]
  omega

variable {α : Type} {write : α → List UInt8} {k : Nat}

/-- Records that each take at least `k` bytes. -/
theorem le_length_flatMap (each : ∀ x, k ≤ (write x).length) (xs : List α) :
    xs.length * k ≤ (xs.flatMap write).length := by
  induction xs with
  | nil => simp
  | cons x rest ih =>
    have first := each x
    simp only [List.length_cons, List.flatMap_cons, List.length_append, Nat.succ_mul]
    omega

theorem le_length_array (each : ∀ x, k ≤ (write x).length) (xs : Array α) :
    xs.size * k ≤ (xs.toList.flatMap write).length := by
  simpa using le_length_flatMap each xs.toList

/-- One of the records is no longer than all of them. -/
theorem length_le_array {xs : Array α} {x : α} (mem : x ∈ xs) :
    (write x).length ≤ (xs.toList.flatMap write).length := by
  have mem := Array.mem_toList_iff.2 mem
  generalize xs.toList = ys at mem ⊢
  induction ys with
  | nil => cases mem
  | cons y rest ih =>
    simp only [List.flatMap_cons, List.length_append]
    rcases List.mem_cons.1 mem with rfl | later
    · omega
    · have := ih later
      omega

theorem le_length_lexBody (s : LexState) :
    s.epsilons.length * 8 + s.ranges.size * 12 ≤ (lexBody s).length := by
  have epsilons := le_length_flatMap (fun e => Nat.le_of_eq (length_epsilon e).symm) s.epsilons
  have ranges := le_length_array (fun r => Nat.le_of_eq (length_range r).symm) s.ranges
  simp only [lexBody, List.length_append]
  omega

end Binary

namespace Decoder

variable {α β : Type} {d : Decoder α} {x : α} {y : β} {bytes more : List UInt8} {need : Nat}

/-- In front of at least `need` more bytes, `d` takes exactly `bytes` and returns `x`. -/
def Reads (d : Decoder α) (bytes : List UInt8) (x : α) (need : Nat) : Prop :=
  ∀ start rest, need ≤ rest.length →
    d ⟨start, bytes ++ rest⟩ = .ok (x, ⟨start + bytes.length, rest⟩)

theorem reads_pure (x : α) (need : Nat) : Reads (pure x) [] x need := fun _ _ _ => rfl

theorem Reads.mono {need' : Nat} (first : d.Reads bytes x need) (le : need ≤ need') :
    d.Reads bytes x need' :=
  fun start rest enough => first start rest (Nat.le_trans le enough)

/-- What is read second counts among the bytes that follow what is read first. -/
theorem Reads.bind {f : α → Decoder β} {need' : Nat} (first : d.Reads bytes x need')
    (second : (f x).Reads more y need) (enough : need' ≤ more.length + need) :
    (d >>= f).Reads (bytes ++ more) y need := by
  intro start rest le
  have head := first start (more ++ rest) (by simp only [List.length_append]; omega)
  have tail := second (start + bytes.length) rest le
  change (d ⟨start, bytes ++ more ++ rest⟩ >>= fun r => f r.1 r.2) = _
  rw [List.append_assoc, head, ok_bind, tail, List.length_append, Nat.add_assoc]

/-- A field with nothing to ask of what follows. -/
theorem Reads.next {f : α → Decoder β} (first : d.Reads bytes x 0)
    (second : (f x).Reads more y need) : (d >>= f).Reads (bytes ++ more) y need :=
  first.bind second (Nat.zero_le _)

/-- The last field of a record. -/
theorem Reads.finish {f : α → Decoder β} (first : d.Reads bytes x need) (last : f x = pure y) :
    (d >>= f).Reads bytes y need := by
  have nothing : (f x).Reads [] y need := last ▸ reads_pure y need
  have whole := first.bind nothing (Nat.le_add_left _ _)
  rwa [List.append_nil] at whole

/-- Where something starts matters for refusals only. -/
theorem reads_offset {f : Nat → Decoder β} (each : ∀ start, (f start).Reads bytes y need) :
    (offset >>= f).Reads bytes y need :=
  fun start rest enough => each start start rest enough

theorem reads_byte (field : Field) (b : UInt8) : (byte field).Reads [b] b 0 :=
  fun _ _ _ => rfl

theorem reads_word (field : Field) (w : UInt32) : (word field).Reads (Binary.word w) w 0 := by
  intro start rest _
  simp only [word, Binary.word, wordBytes, List.cons_append, List.nil_append, wordOf_wordBytes,
    List.length_cons, List.length_nil]

theorem reads_signed (field : Field) (w : Int32) : (signed field).Reads (Binary.signed w) w 0 :=
  (reads_word field w.toUInt32).finish rfl

theorem reads_flag (field : Field) (b : Bool) : (flag field).Reads (Binary.flag b) b 0 := by
  refine reads_offset fun start => ?_
  cases b <;> exact (reads_word field _).finish rfl

/-- A count is accepted where the records that it counts can follow. -/
theorem reads_count (field : Field) {n : Nat} (bound : n < Binary.limit) :
    (count field).Reads (Binary.size n) n (n * field.recordSize) := by
  have same : n.toUInt32.toNat = n := by
    simp only [Binary.limit] at bound
    simp only [Nat.toUInt32_eq, UInt32.toNat_ofNat']
    omega
  refine reads_offset fun start offset rest enough => ?_
  have head : word field ⟨offset, Binary.size n ++ rest⟩ = _ :=
    reads_word field n.toUInt32 offset rest (Nat.zero_le _)
  change (word field ⟨offset, Binary.size n ++ rest⟩ >>= fun read =>
    (if atLeast (read.1.toNat * field.recordSize) read.2.rest then pure read.1.toNat
      else throw (.badCode field read.1.toNat start) : Decoder Nat) read.2) = _
  rw [head, ok_bind]
  dsimp only
  rw [same, if_pos (atLeast_iff.2 enough)]
  rfl

section Records

variable (write : β → List UInt8) (view : β → α)

/-- Records one behind the other, seen as `view` shows them. -/
theorem reads_many {xs : List β}
    (each : ∀ x ∈ xs, d.Reads (write x) (view x) need) :
    (many d xs.length).Reads (xs.flatMap write) (xs.map view) need := by
  induction xs with
  | nil => exact reads_pure [] need
  | cons x rest ih =>
    obtain ⟨first, others⟩ := List.forall_mem_cons.1 each
    simp only [List.flatMap_cons]
    exact first.bind ((ih others).finish rfl) (Nat.le_add_left _ _)

theorem reads_list {d : Decoder β} {xs : List β} (each : ∀ x ∈ xs, d.Reads (write x) x need) :
    (many d xs.length).Reads (xs.flatMap write) xs need := by
  have whole := reads_many write id each
  rwa [List.map_id] at whole

theorem reads_array {d : Decoder β} {xs : Array β} (each : ∀ x ∈ xs, d.Reads (write x) x need) :
    (many d xs.size).Reads (xs.toList.flatMap write) xs.toList need :=
  reads_list write fun x mem => each x (Array.mem_toList_iff.1 mem)

/-- The heads of some records, of which the rest follows later. -/
theorem reads_heads {xs : Array β}
    (each : ∀ x ∈ xs, d.Reads (write x) (view x) need) :
    (many d xs.size).Reads (xs.toList.flatMap write) (xs.toList.map view) need :=
  reads_many write view fun x mem => each x (Array.mem_toList_iff.1 mem)

/-- Records whose heads have been read before. -/
theorem reads_each {record : α → Decoder β} {xs : Array β}
    (each : ∀ x ∈ xs, (record (view x)).Reads (write x) x need) :
    (Decoder.each record (xs.toList.map view)).Reads (xs.toList.flatMap write) xs.toList need := by
  have each : ∀ x ∈ xs.toList, (record (view x)).Reads (write x) x need :=
    fun x mem => each x (Array.mem_toList_iff.1 mem)
  generalize xs.toList = ys at each ⊢
  induction ys with
  | nil => exact reads_pure [] need
  | cons x rest ih =>
    obtain ⟨first, others⟩ := List.forall_mem_cons.1 each
    simp only [List.flatMap_cons]
    exact first.bind ((ih others).finish rfl) (Nat.le_add_left _ _)

end Records

end Decoder

/-- A word below the limit is not negative as a signed one. -/
theorem nonneg_toInt32 {w : UInt32} (small : w.toNat < Binary.limit) : 0 ≤ w.toInt32 := by
  have same : w.toInt32.toInt = w.toNat := by
    simp only [Binary.limit] at small
    simp only [← Int32.toInt_toBitVec, BitVec.toInt_eq_toNat_cond, UInt32.toBitVec_toInt32,
      UInt32.toNat_toBitVec]
    omega
  simp [Int32.le_iff_toInt_le, same]

theorem Recognition.ofCode?_code {r : Recognition}
    (small : ∀ id, r = .token id → id.toNat < Binary.limit) : ofCode? r.code = some r := by
  cases r with
  | token id => simp [code, ofCode?, nonneg_toInt32 (small id rfl)]
  | nothing => rfl
  | commentStart => rfl
  | commentEnd => rfl
  | followAccept => rfl

/-- The lists of an automaton have lengths below the limit. -/
structure Automaton.Fits (a : Automaton) : Prop where
  states : a.states.size < Binary.limit
  ranges : ∀ s ∈ a.states, s.ranges.size < Binary.limit
  epsilons : ∀ s ∈ a.states, s.epsilons.length < Binary.limit

/-- The lists and names of a grammar have lengths below the limit. -/
structure Grammar.Fits (g : Grammar) : Prop where
  tokens : g.tokens.size < Binary.limit
  names : ∀ t ∈ g.tokens, ∀ name ∈ t.name, name.length < Binary.limit
  lexer : g.lexer.Fits
  comments : g.comments.Fits
  states : g.states.size < Binary.limit
  actions : ∀ s ∈ g.states, s.actions.size < Binary.limit
  nonterminals : g.nonterminals.size < Binary.limit
  attributes : ∀ n ∈ g.nonterminals, n.attributeTypes.length < Binary.limit
  gotos : ∀ n ∈ g.nonterminals, n.gotos.size < Binary.limit
  rules : g.rules.size < Binary.limit
  semantics : ∀ r ∈ g.rules, r.actions.size < Binary.limit
  params : ∀ r ∈ g.rules, ∀ a ∈ r.actions, a.params.length < Binary.limit
  recoveries : g.recoveries.length < Binary.limit
  entries : ∀ r ∈ g.recoveries, r.entries.length < Binary.limit

/-- Tokens and continuations of an automaton are not negative as signed words. -/
structure Automaton.Signed (a : Automaton) : Prop where
  token : ∀ s ∈ a.states, ∀ id, s.recognized = .token id → id.toNat < Binary.limit
  continuation : ∀ s ∈ a.states, ∀ e ∈ s.epsilons, ∀ root, e.continuation = some root →
    root.toNat < Binary.limit

/-- A checked automaton names tokens that are there, or classes of comments. -/
theorem Automaton.signed_of_check {a : Automaton} {part : Part} {tokens : Nat}
    (passed : a.check part tokens = .ok ()) (few : tokens < Binary.limit) (fits : a.Fits) :
    a.Signed := by
  have formed := check_eq_ok_iff.1 passed
  constructor
  · intro s mem id recognized
    have admits := (formed s mem).recognized
    rw [recognized] at admits
    cases part with
    | lexer => exact Nat.lt_trans (admits id rfl) few
    | comment =>
      obtain none | accept | ⟨id', same, known⟩ := admits
      · cases none
      · cases accept
      · cases same
        exact Nat.lt_of_le_of_lt (UInt32.le_iff_toNat_le.1 known) (by decide)
  · intro s mem e inside root next
    exact Nat.lt_trans ((formed s mem).continuation e inside root next).1 fits.states

namespace Decoder

section Tokens

theorem reads_tokenFlags (t : TokenInfo) :
    tokenFlags.Reads (Binary.tokenFlags t) (t.significant, t.carriesValue) 0 :=
  (reads_flag _ _).next ((reads_flag _ _).finish rfl)

theorem reads_nameCharacter (c : Char) : nameCharacter.Reads (Binary.word c.val) c 0 :=
  reads_offset fun start => (reads_word _ _).finish (by simp only [Text.scalar?_val])

theorem reads_name {name : Option String} (fits : ∀ n ∈ name, n.length < Binary.limit)
    (nonempty : name ≠ some "") : Decoder.name.Reads (Binary.name name) name 0 := by
  cases name with
  | none => exact (reads_count .nameLength (n := 0) (by decide)).finish rfl
  | some text =>
    have some_char : text.toList ≠ [] := fun empty =>
      nonempty (congrArg some (String.toList_eq_nil_iff.1 empty))
    have positive : text.toList.length ≠ 0 := by simpa using some_char
    have length : text.toList.length < Binary.limit := by
      rw [String.length_toList]
      exact fits text rfl
    have chars := reads_list _ fun c (_ : c ∈ text.toList) => reads_nameCharacter c
    have room : text.toList.length * 4 ≤
        (text.toList.flatMap fun c => Binary.word c.val).length :=
      Binary.le_length_flatMap (fun _ => Nat.le_refl 4) text.toList
    simp only [Binary.name, Option.getD_some, List.isEmpty_iff, some_char, if_false,
      List.append_assoc]
    refine (reads_count .nameLength length).bind ?_ ?_
    · rw [if_neg positive]
      refine chars.next (reads_offset fun start => (reads_word .nameTerminator 0).finish ?_)
      rw [if_pos rfl, String.ofList_toList]
    · simp only [List.length_append, Field.recordSize]
      omega

theorem reads_token {t : TokenInfo} (fits : ∀ n ∈ t.name, n.length < Binary.limit)
    (nonempty : t.name ≠ some "") :
    (token (t.significant, t.carriesValue)).Reads (Binary.name t.name) t 0 :=
  (reads_name fits nonempty).finish rfl

end Tokens

section Automata

/-- What stands in front of the lists of this state. -/
def LexHead.of (s : LexState) : LexHead := ⟨s.recognized, s.ranges.size, s.epsilons.length⟩

/-- The head of a state is accepted in front of its lists, whatever stands between. -/
theorem reads_lexHead {s : LexState} (ranges : s.ranges.size < Binary.limit)
    (epsilons : s.epsilons.length < Binary.limit)
    (small : ∀ id, s.recognized = .token id → id.toNat < Binary.limit)
    (room : (Binary.lexBody s).length ≤ need) :
    lexHead.Reads (Binary.lexHead s) (.of s) need := by
  have body := Binary.le_length_lexBody s
  simp only [Binary.lexHead, List.append_assoc]
  refine reads_offset fun start => (reads_signed _ _).next ?_
  simp only [Recognition.ofCode?_code small]
  refine (reads_count _ ranges).bind (((reads_count _ epsilons).mono ?_).finish rfl) ?_
  all_goals
    simp only [Field.recordSize]
    omega

theorem reads_epsilon {e : Epsilon}
    (small : ∀ root, e.continuation = some root → root.toNat < Binary.limit) :
    epsilon.Reads (Binary.epsilon e) e 0 := by
  obtain ⟨target, continuation⟩ := e
  refine (reads_word .epsilonTarget target).next (reads_offset fun start => ?_)
  cases continuation with
  | none => exact (reads_signed .continuationState (-1)).finish rfl
  | some root =>
    refine (reads_signed .continuationState root.toInt32).finish ?_
    rw [if_pos (nonneg_toInt32 (small root rfl)), UInt32.toUInt32_toInt32]

theorem reads_range (r : CharRange) : range.Reads (Binary.range r) r 0 := by
  simp only [Binary.range, List.append_assoc]
  exact (reads_word _ _).next ((reads_signed _ _).next ((reads_signed _ _).finish rfl))

theorem reads_lexState {s : LexState}
    (small : ∀ e ∈ s.epsilons, ∀ root, e.continuation = some root → root.toNat < Binary.limit) :
    (lexState (.of s)).Reads (Binary.lexBody s) s 0 := by
  have epsilons := reads_list Binary.epsilon fun e mem => reads_epsilon (small e mem)
  have ranges := reads_array Binary.range fun r (_ : r ∈ s.ranges) => reads_range r
  exact epsilons.next (ranges.finish rfl)

theorem reads_automaton {a : Automaton} (fits : a.Fits) (signed : a.Signed) :
    (automaton a.states.size a.maxDepth).Reads (Binary.automaton a) a 0 := by
  have heads := reads_heads Binary.lexHead LexHead.of fun s mem =>
    reads_lexHead (fits.ranges s mem) (fits.epsilons s mem) (signed.token s mem)
      (Binary.length_le_array mem)
  have bodies := reads_each Binary.lexBody LexHead.of fun s mem =>
    reads_lexState (signed.continuation s mem)
  exact heads.bind (bodies.finish rfl) (Nat.le_refl _)

end Automata

section Parsers

theorem reads_action (a : Action) : action.Reads (Binary.action a) a 0 := by
  simp only [Binary.action, List.append_assoc, List.cons_append]
  refine reads_offset fun start => (reads_byte _ _).next ?_
  simp only [ActionKind.ofByte?_byte]
  exact (reads_word _ _).next ((reads_word _ _).next ((reads_word _ _).finish rfl))

theorem reads_parserState {s : ParserState} (fits : s.actions.size < Binary.limit) :
    parserState.Reads (Binary.parserState s) s 0 := by
  have actions := reads_array Binary.action fun a (_ : a ∈ s.actions) => reads_action a
  have room := Binary.le_length_array (fun a => Nat.le_of_eq (Binary.length_action a).symm) s.actions
  exact (reads_count _ fits).bind (actions.finish rfl) room

theorem reads_goto (p : Goto) : goto.Reads (Binary.goto p) p 0 :=
  (reads_word _ _).next ((reads_word _ _).finish rfl)

theorem reads_nonterminal {n : Nonterminal} (attributes : n.attributeTypes.length < Binary.limit)
    (gotos : n.gotos.size < Binary.limit) :
    nonterminal.Reads (Binary.nonterminal n) n 0 := by
  have types := reads_list Binary.word fun w (_ : w ∈ n.attributeTypes) =>
    reads_word .attributeType w
  have pairs := reads_array Binary.goto fun p (_ : p ∈ n.gotos) => reads_goto p
  have types_room := Binary.le_length_flatMap (fun w => Nat.le_of_eq (Binary.length_word w).symm)
    n.attributeTypes
  have pairs_room := Binary.le_length_array (fun p => Nat.le_of_eq (Binary.length_goto p).symm)
    n.gotos
  simp only [Binary.nonterminal, List.append_assoc]
  refine (reads_count _ attributes).bind
    ((reads_count _ gotos).bind (types.next (pairs.finish rfl)) ?_) ?_
  all_goals
    simp only [Field.recordSize, List.length_append]
    omega

end Parsers

section Rules

/-- What stands in front of the parameters of this action. -/
def SemanticHead.of (a : SemanticAction) : SemanticHead :=
  ⟨a.soft, a.target, a.function, a.params.length⟩

/-- The parameters of an action, which follow the heads of all actions of its rule. -/
def params (a : SemanticAction) : List UInt8 := a.params.flatMap Binary.slot

theorem reads_semanticHead {a : SemanticAction} (fits : a.params.length < Binary.limit)
    (room : (params a).length ≤ need) :
    semanticHead.Reads (Binary.semanticHead a) (.of a) need := by
  have slots := Binary.le_length_flatMap (fun s => Nat.le_of_eq (Binary.length_slot s).symm) a.params
  simp only [Binary.semanticHead, Binary.slot, List.append_assoc]
  refine (reads_flag _ _).next ((reads_word _ _).next ((reads_word _ _).next
    ((reads_word _ _).next (((reads_count _ fits).mono ?_).finish rfl))))
  exact Nat.le_trans slots room

theorem reads_parameter (s : Slot) : parameter.Reads (Binary.slot s) s 0 :=
  (reads_word _ _).next ((reads_word _ _).finish rfl)

theorem reads_semanticAction (a : SemanticAction) :
    (semanticAction (.of a)).Reads (params a) a 0 :=
  (reads_list Binary.slot fun s _ => reads_parameter s).finish rfl

theorem reads_rule {r : Rule} (actions : r.actions.size < Binary.limit)
    (small : ∀ a ∈ r.actions, a.params.length < Binary.limit) :
    rule.Reads (Binary.rule r) r 0 := by
  have heads := reads_heads Binary.semanticHead SemanticHead.of fun a mem =>
    reads_semanticHead (small a mem) (Binary.length_le_array mem)
  have bodies := reads_each params SemanticHead.of fun a (_ : a ∈ r.actions) =>
    reads_semanticAction a
  have room := Binary.le_length_array
    (fun a => Nat.le_of_eq (Binary.length_semanticHead a).symm) r.actions
  simp only [Binary.rule, List.append_assoc]
  refine (reads_word _ _).next ((reads_word _ _).next ((reads_count _ actions).bind
    (heads.bind (bodies.finish rfl) (Nat.le_refl _)) ?_))
  simp only [Field.recordSize, List.length_append]
  omega

theorem reads_recoveryEntry (e : RecoveryEntry) :
    recoveryEntry.Reads (Binary.recoveryEntry e) e 0 :=
  (reads_word _ _).next ((reads_word _ _).finish rfl)

theorem reads_recovery {r : Recovery} (fits : r.entries.length < Binary.limit) :
    recovery.Reads (Binary.recovery r) r 0 := by
  have entries := reads_list Binary.recoveryEntry fun e (_ : e ∈ r.entries) =>
    reads_recoveryEntry e
  have room := Binary.le_length_flatMap
    (fun e => Nat.le_of_eq (Binary.length_recoveryEntry e).symm) r.entries
  simp only [Binary.recovery, List.append_assoc]
  exact (reads_word _ _).next ((reads_count _ fits).bind (entries.finish rfl) room)

end Rules

/-- The counts of the header are read in front of all sections, which have room for what they
count. -/
theorem reads_grammar {g : Grammar} (fits : g.Fits) (lexer : g.lexer.Signed)
    (comments : g.comments.Signed) (names : ∀ t ∈ g.tokens, t.name ≠ some "") :
    grammar.Reads g.encode g 0 := by
  have flags := reads_heads Binary.tokenFlags (fun t : TokenInfo => (t.significant, t.carriesValue))
    fun t (_ : t ∈ g.tokens) => reads_tokenFlags t
  have tokens := reads_each (fun t : TokenInfo => Binary.name t.name)
    (fun t => (t.significant, t.carriesValue)) fun t mem =>
      reads_token (fits.names t mem) (names t mem)
  have lexer := reads_automaton fits.lexer lexer
  have comments := reads_automaton fits.comments comments
  have states := reads_array Binary.parserState fun s mem => reads_parserState (fits.actions s mem)
  have nonterminals := reads_array Binary.nonterminal fun n mem =>
    reads_nonterminal (fits.attributes n mem) (fits.gotos n mem)
  have rules := reads_array Binary.rule fun r mem =>
    reads_rule (fits.semantics r mem) (fits.params r mem)
  have recoveries := reads_list Binary.recovery fun r mem => reads_recovery (fits.entries r mem)
  have flags_room :=
    Binary.le_length_array (fun t => Nat.le_of_eq (Binary.length_tokenFlags t).symm) g.tokens
  have heads_room := Binary.le_length_array fun s => Nat.le_of_eq (Binary.length_lexHead s).symm
  have lexer_room := heads_room g.lexer.states
  have comments_room := heads_room g.comments.states
  have states_room := Binary.le_length_array Binary.le_length_parserState g.states
  have nonterminals_room := Binary.le_length_array Binary.le_length_nonterminal g.nonterminals
  have rules_room := Binary.le_length_array Binary.le_length_rule g.rules
  have recoveries_room := Binary.le_length_flatMap Binary.le_length_recovery g.recoveries
  simp only [Grammar.encode, Binary.header, List.append_assoc]
  refine (reads_count _ fits.tokens).bind ((reads_count _ fits.lexer.states).bind
    ((reads_word _ _).next ((reads_count _ fits.comments.states).bind ((reads_word _ _).next
      ((reads_count _ fits.states).bind ((reads_count _ fits.nonterminals).bind
        ((reads_count _ fits.rules).bind ((reads_count _ fits.recoveries).bind
          (flags.next (tokens.next (lexer.next (comments.next (states.next (nonterminals.next
            (rules.next (recoveries.finish rfl)))))))) ?_) ?_) ?_) ?_)) ?_)) ?_) ?_
  all_goals
    simp only [Field.recordSize, List.length_append, Binary.automaton]
    omega

end Decoder

/-- What is written for a checked grammar is read back as that grammar. -/
theorem decode_undoes_encode {g : Grammar} (valid : g.check = .ok ()) (fits : g.Fits) :
    Grammar.decode g.encode = .ok g := by
  have passed := valid
  simp only [Grammar.check, bind_unit_eq_ok_iff, refuse_eq_ok_iff] at passed
  obtain ⟨_, names, _, lexer, comments, _⟩ := passed
  have named : ∀ t ∈ g.tokens, t.name ≠ some "" := by
    intro t mem
    simpa using List.any_eq_false.1 names t (Array.mem_toList_iff.2 mem)
  have whole := Decoder.reads_grammar fits (Automaton.signed_of_check lexer fits.tokens fits.lexer)
    (Automaton.signed_of_check comments fits.tokens fits.comments) named 0 [] (Nat.le_refl _)
  rw [List.append_nil] at whole
  simp [Grammar.decode, whole, Grammar.checked, valid]

/-- Two automata, one of them empty, a guarded transition and a token without a name. -/
theorem keyword_decode_undoes_encode : Samples.Keyword.grammar.check = .ok () ∧
    Samples.Keyword.grammar.Fits ∧
    Grammar.decode Samples.Keyword.grammar.encode = .ok Samples.Keyword.grammar := by
  have valid : Samples.Keyword.grammar.check = .ok () := eq_ok_of_toOption (by decide +kernel)
  have lexer : Samples.Keyword.grammar.lexer.Fits := by
    constructor <;> decide +kernel
  have comments : Samples.Keyword.grammar.comments.Fits := by
    constructor <;> decide +kernel
  have fits : Samples.Keyword.grammar.Fits := by
    refine ⟨?_, ?_, lexer, comments, ?_, ?_, ?_, ?_, ?_, ?_, ?_, ?_, ?_, ?_⟩ <;> decide +kernel
  exact ⟨valid, fits, decode_undoes_encode valid fits⟩

end GrammarMachine
