import GrammarMachine.Grammar.Load
import GrammarMachine.Json.Writer
import GrammarMachine.Proofs.Json.Decode

/-!
A grammar is read back from its JSON form. Part by part, what a record is written as is readable,
and its fields are those that were written; so the form of a whole grammar is one that reads as it,
and its text is one that parses to that form.
-/

namespace GrammarMachine

open Json

section Lexer

theorem TokenInfo.faithful : Faithful TokenInfo.toJson TokenInfo.ofJson? :=
  have name := faithful_text.option fun _ => nofun
  { readable t := .record (by simp [name.readable, faithful_bool.readable])
    reads t := bind_fields? rfl (by decide) (by simp [name.reads, faithful_bool.reads]) }

/-- Bare variants are strings, and the one with a token is a record of it. -/
theorem Recognition.faithful : Faithful Recognition.toJson Recognition.ofJson? where
  readable
    | token id => .record (by simp [faithful_uint32.readable])
    | nothing => .text _
    | commentStart => .text _
    | commentEnd => .text _
    | followAccept => .text _
  reads
    | token id => by
      change (uint32? (uint32 id)).bind (fun id => some (token id)) = some (token id)
      rw [uint32?_uint32]
      rfl
    | nothing => rfl
    | commentStart => rfl
    | commentEnd => rfl
    | followAccept => rfl

theorem Epsilon.faithful : Faithful Epsilon.toJson Epsilon.ofJson? :=
  have continuation := faithful_uint32.option fun _ => nofun
  { readable e := .record (by simp [faithful_uint32.readable, continuation.readable])
    reads e := bind_fields? rfl (by decide) (by simp [continuation.reads]) }

theorem CharRange.faithful : Faithful CharRange.toJson CharRange.ofJson? where
  readable r := .record (by simp [faithful_uint32.readable, faithful_int32.readable])
  reads r := bind_fields? rfl (by decide) (by simp)

theorem LexState.faithful : Faithful LexState.toJson LexState.ofJson? :=
  have recognition := Recognition.faithful
  have epsilon := Epsilon.faithful
  have range := CharRange.faithful
  { readable s := .record (by
      simp [recognition.readable, epsilon.list.readable, range.list.readable])
    reads s := bind_fields? rfl (by decide) (by
      simp [recognition.reads, epsilon.list.reads, range.array.reads]) }

theorem Automaton.faithful : Faithful Automaton.toJson Automaton.ofJson? :=
  have state := LexState.faithful
  { readable a := .record (by simp [state.list.readable, faithful_uint32.readable])
    reads a := bind_fields? rfl (by decide) (by simp [state.array.reads]) }

end Lexer

section Parser

theorem ActionKind.faithful : Faithful ActionKind.toJson ActionKind.ofJson? where
  readable k := .text k.name
  reads k := by cases k <;> rfl

theorem Action.faithful : Faithful Action.toJson Action.ofJson? :=
  have kind := ActionKind.faithful
  { readable a := .record (by simp [kind.readable, faithful_uint32.readable])
    reads a := bind_fields? rfl (by decide) (by simp [kind.reads]) }

theorem ParserState.faithful : Faithful ParserState.toJson ParserState.ofJson? :=
  have action := Action.faithful
  { readable s := .record (by simp [action.list.readable])
    reads s := bind_fields? rfl (by decide) (by simp [action.array.reads]) }

theorem Goto.faithful : Faithful Goto.toJson Goto.ofJson? where
  readable p := .record (by simp [faithful_uint32.readable])
  reads p := bind_fields? rfl (by decide) (by simp)

theorem Nonterminal.faithful : Faithful Nonterminal.toJson Nonterminal.ofJson? :=
  have goto := Goto.faithful
  { readable n := .record (by simp [faithful_uint32.list.readable, goto.list.readable])
    reads n := bind_fields? rfl (by decide) (by
      simp [faithful_uint32.list.reads, goto.array.reads]) }

end Parser

section Rules

theorem Slot.faithful : Faithful Slot.toJson Slot.ofJson? where
  readable s := .record (by simp [faithful_uint32.readable])
  reads s := bind_fields? rfl (by decide) (by simp)

theorem SemanticAction.faithful : Faithful SemanticAction.toJson SemanticAction.ofJson? :=
  have slot := Slot.faithful
  { readable a := .record (by
      simp [faithful_bool.readable, slot.readable, faithful_uint32.readable, slot.list.readable])
    reads a := bind_fields? rfl (by decide) (by
      simp [faithful_bool.reads, slot.reads, slot.list.reads]) }

theorem Rule.faithful : Faithful Rule.toJson Rule.ofJson? :=
  have action := SemanticAction.faithful
  { readable r := .record (by simp [faithful_uint32.readable, action.list.readable])
    reads r := bind_fields? rfl (by decide) (by simp [action.array.reads]) }

theorem RecoveryEntry.faithful : Faithful RecoveryEntry.toJson RecoveryEntry.ofJson? where
  readable e := .record (by simp [faithful_uint32.readable])
  reads e := bind_fields? rfl (by decide) (by simp)

theorem Recovery.faithful : Faithful Recovery.toJson Recovery.ofJson? :=
  have entry := RecoveryEntry.faithful
  { readable r := .record (by simp [faithful_uint32.readable, entry.list.readable])
    reads r := bind_fields? rfl (by decide) (by simp [entry.list.reads]) }

end Rules

namespace Grammar

theorem faithful : Faithful Grammar.toJson Grammar.ofJson? :=
  have token := TokenInfo.faithful
  have lexer := Automaton.faithful
  have state := ParserState.faithful
  have nonterminal := Nonterminal.faithful
  have rule := Rule.faithful
  have recovery := Recovery.faithful
  { readable g := .record (by
      simp [token.list.readable, lexer.readable, state.list.readable,
        nonterminal.list.readable, rule.list.readable, recovery.list.readable])
    reads g := bind_fields? rfl (by decide) (by
      simp [token.array.reads, lexer.reads, state.array.reads, nonterminal.array.reads,
        rule.array.reads, recovery.list.reads]) }

/-- A grammar that passes its check is loaded from its JSON form. -/
theorem decodeJson_pretty {g : Grammar} (valid : g.check = .ok ()) :
    decodeJson g.toJson.pretty.toUTF8.data.toList = .ok g := by
  rw [decodeJson, parse?_pretty (faithful.readable g), Option.bind_some, faithful.reads]
  change g.checked = .ok g
  rw [checked, valid]

end Grammar

end GrammarMachine
