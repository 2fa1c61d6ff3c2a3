import GrammarMachine.Proofs.Evaluation.Summation
import GrammarMachine.Proofs.Lexer.Summation
import GrammarMachine.Proofs.Parse.Chart

/-!
The language of lists. Numbers and commas are shifted in turn up to the end of the text; then the
last number becomes a list, each number in front of it makes the list longer by one, and the list
becomes the total. Every list is accepted that way.
-/

namespace GrammarMachine.Samples.Summation

open Calculator (IsNumeral)

/-- A number, and the text that it carries. -/
structure Denotes (t : Token) (text : String) : Prop where
  digits : t.id = number
  carried : t.text = some text
  numeral : IsNumeral text

/-- Numbers with a comma between any two. -/
inductive Listed : List Token → List String → Prop
  | one {t : Token} {text : String} (denotes : Denotes t text) : Listed [t] [text]
  | more {t s : Token} {text : String} {ts : List Token} {texts : List String}
      (denotes : Denotes t text) (separates : s.id = comma) (rest : Listed ts texts) :
      Listed (t :: s :: ts) (text :: texts)

namespace Listed

variable {ts : List Token} {texts : List String}

theorem ids (listed : Listed ts texts) :
    ∃ k, ts.map Token.id = number :: (List.replicate k [comma, number]).flatten := by
  induction listed with
  | one denotes => exact ⟨0, by simp [denotes.digits]⟩
  | more denotes separates _ ih =>
    obtain ⟨k, ids⟩ := ih
    exact ⟨k + 1, by simp [List.replicate_succ, denotes.digits, separates, ids]⟩

theorem numerals (listed : Listed ts texts) : ∀ text ∈ texts, IsNumeral text := by
  induction listed with
  | one denotes => exact List.forall_mem_singleton.2 denotes.numeral
  | more denotes _ _ ih => exact List.forall_mem_cons.2 ⟨denotes.numeral, ih⟩

/-- The texts are those of the numbers, in order. -/
theorem texts_eq (listed : Listed ts texts) :
    (ts.filter fun t => t.id == number).map Token.text = texts.map some := by
  have other : comma ≠ number := by decide
  induction listed with
  | one denotes => simp [denotes.digits, denotes.carried]
  | more denotes separates _ ih => simp [denotes.digits, denotes.carried, separates, other, ih]

end Listed

section Tables

variable {s t : UInt32} {a : Action}

/-- Numbers follow the start and commas, and commas follow numbers. -/
theorem entries_spec : ∀ p ∈ grammar.entries, p.2.low = p.2.high ∧
    (p.2.kind = .shift → (p.1 = 0 ∨ p.1 = 4) ∧ p.2.low = number ∧ p.2.aux = 2 ∨
      p.1 = 2 ∧ p.2.low = comma ∧ p.2.aux = 4) ∧
    (p.2.kind = .reduce → p.1 = 2 ∧ p.2.aux = 2 ∨ p.1 = 3 ∧ p.2.aux = 0 ∨ p.1 = 5 ∧ p.2.aux = 1) ∧
    (p.2.kind = .accept → p.1 = 1 ∧ p.2.low = endOfText) := by
  decide +kernel

/-- An entry is for one terminal only. -/
theorem low_eq (entry : grammar.entry? s t = some a) (kind : a.kind ≠ .error) :
    (s, a) ∈ grammar.entries ∧ a.low = t := by
  obtain ⟨mem, low, high⟩ :=
    Grammar.mem_entries (Grammar.sound_of_check check_grammar) entry kind
  rw [← (entries_spec _ mem).1] at high
  exact ⟨mem, UInt32.le_antisymm low high⟩

theorem shift_cases (entry : grammar.entry? s t = some a) (kind : a.kind = .shift) :
    (s = 0 ∨ s = 4) ∧ t = number ∧ a.aux = 2 ∨ s = 2 ∧ t = comma ∧ a.aux = 4 := by
  obtain ⟨mem, rfl⟩ := low_eq entry (by simp [kind])
  exact (entries_spec _ mem).2.1 kind

theorem reduce_cases (entry : grammar.entry? s t = some a) (kind : a.kind = .reduce) :
    s = 2 ∧ a.aux = 2 ∨ s = 3 ∧ a.aux = 0 ∨ s = 5 ∧ a.aux = 1 := by
  obtain ⟨mem, rfl⟩ := low_eq entry (by simp [kind])
  exact (entries_spec _ mem).2.2.1 kind

theorem accept_cases (entry : grammar.entry? s t = some a) (kind : a.kind = .accept) :
    s = 1 ∧ t = endOfText := by
  obtain ⟨mem, rfl⟩ := low_eq entry (by simp [kind])
  exact (entries_spec _ mem).2.2.2 kind

theorem endsLast : grammar.EndsLast where
  shift entry kind := by
    rcases shift_cases entry kind with ⟨_, rfl, _⟩ | ⟨_, rfl, _⟩ <;> decide
  accept entry kind := (accept_cases entry kind).2

end Tables

section Accepting

/-- The states of a stack that waits for a number. -/
inductive Open : List UInt32 → Prop
  | bottom : Open [0]
  | more {states : List UInt32} (below : Open states) : Open (4 :: 2 :: states)

/-- A list on such a stack becomes the total, at the end of the text. -/
theorem Open.accepts_list {states : List UInt32} (waits : Open states) :
    ∃ base under target, states = base :: under ∧
      (grammar.nonterminals[items.toNat]?.bind fun n => n.goto? base) = some target ∧
      grammar.Accepts (target :: states) [] := by
  induction waits with
  | bottom =>
    have whole : grammar.Accepts [1, 0] [] :=
      .accept (a := ⟨.accept, endOfText, endOfText, 0⟩) (by decide +kernel) rfl
    refine ⟨0, [], 3, rfl, by decide +kernel, ?_⟩
    exact .reduce (a := ⟨.reduce, endOfText, endOfText, 0⟩) (by decide +kernel) rfl rfl rfl rfl
      (by decide +kernel) whole
  | @more states _ ih =>
    obtain ⟨base, under, target, rfl, goto, accepts⟩ := ih
    refine ⟨4, _, 5, rfl, by decide +kernel, ?_⟩
    exact .reduce (a := ⟨.reduce, endOfText, endOfText, 1⟩) (by decide +kernel) rfl rfl rfl rfl
      goto accepts

/-- Every list is accepted. -/
theorem Open.accepts {states : List UInt32} (waits : Open states) (k : Nat) :
    grammar.Accepts states (number :: (List.replicate k [comma, number]).flatten) := by
  -- A number comes first.
  suffices rest : grammar.Accepts (2 :: states) (List.replicate k [comma, number]).flatten by
    cases waits with
    | bottom =>
      exact .shift (a := ⟨.shift, number, number, 2⟩) (by decide +kernel) rfl rest
    | more =>
      exact .shift (a := ⟨.shift, number, number, 2⟩) (by decide +kernel) rfl rest
  induction k generalizing states with
  | zero =>
    obtain ⟨base, under, target, rfl, goto, accepts⟩ := waits.accepts_list
    exact .reduce (a := ⟨.reduce, endOfText, endOfText, 2⟩) (by decide +kernel) rfl rfl rfl rfl
      goto accepts
  | succ k ih =>
    rw [List.replicate_succ, List.flatten_cons]
    refine .shift (a := ⟨.shift, comma, comma, 4⟩) (by decide +kernel) rfl ?_
    exact .shift (a := ⟨.shift, number, number, 2⟩) (by decide +kernel) rfl (ih waits.more)

end Accepting

/-- The host goes on after errors, unless its log says otherwise. -/
theorem host_patient : host.Patient fun m => m.log.stopOnFirst = false where
  execute call control m going := by
    change Command.stop ∉ (m.execute call).1.commands ∧ (m.execute call).2.log.stopOnFirst = false
    unfold Machine.execute
    split <;> exact ⟨List.not_mem_nil, going⟩
  error report control m going := ⟨by simp [host, ErrorLog.add, going], going⟩

end GrammarMachine.Samples.Summation
