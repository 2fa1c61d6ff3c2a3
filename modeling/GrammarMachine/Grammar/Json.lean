import GrammarMachine.Grammar.Basic
import GrammarMachine.Json.Decode

/-!
The JSON form of a compiled grammar, field by field, and the reading of it.
-/

namespace GrammarMachine

namespace Json

def uint32 (w : UInt32) : Json := nat w.toNat

def int32 (w : Int32) : Json := int w.toInt

end Json

open Json

namespace TokenInfo

def toJson (t : TokenInfo) : Json :=
  record [("name", option text t.name), ("significant", bool t.significant),
    ("carries_value", bool t.carriesValue)]

def ofJson? (value : Json) : Option TokenInfo := do
  let [name, significant, carriesValue] ←
    fields? ["name", "significant", "carries_value"] value | none
  return ⟨← optional? text? name, ← required? bool? significant, ← required? bool? carriesValue⟩

end TokenInfo

namespace Recognition

def toJson : Recognition → Json
  | nothing => text "None"
  | token id => record [("Token", uint32 id)]
  | commentStart => text "CommentStart"
  | commentEnd => text "CommentEnd"
  | followAccept => text "FollowAccept"

def ofJson? (value : Json) : Option Recognition := do
  let (name, content) ← variant? value
  if name = "Token" then return token (← required? uint32? content)
  if !isBare content then none
  if name = "None" then some nothing
  else if name = "CommentStart" then some commentStart
  else if name = "CommentEnd" then some commentEnd
  else if name = "FollowAccept" then some followAccept
  else none

end Recognition

namespace Epsilon

def toJson (e : Epsilon) : Json :=
  record [("target", uint32 e.target), ("continuation", option uint32 e.continuation)]

def ofJson? (value : Json) : Option Epsilon := do
  let [target, continuation] ← fields? ["target", "continuation"] value | none
  return ⟨← required? uint32? target, ← optional? uint32? continuation⟩

end Epsilon

namespace CharRange

def toJson (r : CharRange) : Json :=
  record [("target", uint32 r.target), ("low", int32 r.low), ("high", int32 r.high)]

def ofJson? (value : Json) : Option CharRange := do
  let [target, low, high] ← fields? ["target", "low", "high"] value | none
  return ⟨← required? uint32? target, ← required? int32? low, ← required? int32? high⟩

end CharRange

namespace LexState

def toJson (s : LexState) : Json :=
  record [("recognized", s.recognized.toJson), ("epsilons", list Epsilon.toJson s.epsilons),
    ("ranges", list CharRange.toJson s.ranges.toList)]

def ofJson? (value : Json) : Option LexState := do
  let [recognized, epsilons, ranges] ← fields? ["recognized", "epsilons", "ranges"] value | none
  return ⟨← required? Recognition.ofJson? recognized, ← required? (list? Epsilon.ofJson?) epsilons,
    ← required? (array? CharRange.ofJson?) ranges⟩

end LexState

namespace Automaton

def toJson (a : Automaton) : Json :=
  record [("states", list LexState.toJson a.states.toList), ("max_depth", uint32 a.maxDepth)]

def ofJson? (value : Json) : Option Automaton := do
  let [states, maxDepth] ← fields? ["states", "max_depth"] value | none
  return ⟨← required? (array? LexState.ofJson?) states, ← required? uint32? maxDepth⟩

end Automaton

namespace ActionKind

def toJson (k : ActionKind) : Json := text k.name

def ofJson? (value : Json) : Option ActionKind := do
  let (name, content) ← variant? value
  if !isBare content then none
  [shift, reduce, accept, error].find? fun k => k.name = name

end ActionKind

namespace Action

def toJson (a : Action) : Json :=
  record [("kind", a.kind.toJson), ("low", uint32 a.low), ("high", uint32 a.high),
    ("aux", uint32 a.aux)]

def ofJson? (value : Json) : Option Action := do
  let [kind, low, high, aux] ← fields? ["kind", "low", "high", "aux"] value | none
  return ⟨← required? ActionKind.ofJson? kind, ← required? uint32? low, ← required? uint32? high,
    ← required? uint32? aux⟩

end Action

namespace ParserState

def toJson (s : ParserState) : Json :=
  record [("actions", list Action.toJson s.actions.toList)]

def ofJson? (value : Json) : Option ParserState := do
  let [actions] ← fields? ["actions"] value | none
  return ⟨← required? (array? Action.ofJson?) actions⟩

end ParserState

namespace Goto

def toJson (p : Goto) : Json :=
  record [("from", uint32 p.source), ("to", uint32 p.target)]

def ofJson? (value : Json) : Option Goto := do
  let [source, target] ← fields? ["from", "to"] value | none
  return ⟨← required? uint32? source, ← required? uint32? target⟩

end Goto

namespace Nonterminal

def toJson (n : Nonterminal) : Json :=
  record [("attribute_types", list uint32 n.attributeTypes),
    ("gotos", list Goto.toJson n.gotos.toList)]

def ofJson? (value : Json) : Option Nonterminal := do
  let [attributeTypes, gotos] ← fields? ["attribute_types", "gotos"] value | none
  return ⟨← required? (list? uint32?) attributeTypes, ← required? (array? Goto.ofJson?) gotos⟩

end Nonterminal

namespace Slot

def toJson (s : Slot) : Json :=
  record [("depth", uint32 s.depth), ("attribute", uint32 s.index)]

def ofJson? (value : Json) : Option Slot := do
  let [depth, index] ← fields? ["depth", "attribute"] value | none
  return ⟨← required? uint32? depth, ← required? uint32? index⟩

end Slot

namespace SemanticAction

def toJson (a : SemanticAction) : Json :=
  record [("soft", bool a.soft), ("target", a.target.toJson), ("function", uint32 a.function),
    ("params", list Slot.toJson a.params)]

def ofJson? (value : Json) : Option SemanticAction := do
  let [soft, target, function, params] ←
    fields? ["soft", "target", "function", "params"] value | none
  return ⟨← required? bool? soft, ← required? Slot.ofJson? target, ← required? uint32? function,
    ← required? (list? Slot.ofJson?) params⟩

end SemanticAction

namespace Rule

def toJson (r : Rule) : Json :=
  record [("length", uint32 r.length), ("lhs", uint32 r.lhs),
    ("actions", list SemanticAction.toJson r.actions.toList)]

def ofJson? (value : Json) : Option Rule := do
  let [length, lhs, actions] ← fields? ["length", "lhs", "actions"] value | none
  return ⟨← required? uint32? length, ← required? uint32? lhs,
    ← required? (array? SemanticAction.ofJson?) actions⟩

end Rule

namespace RecoveryEntry

def toJson (e : RecoveryEntry) : Json :=
  record [("state", uint32 e.state), ("goto_index", uint32 e.nonterminal)]

def ofJson? (value : Json) : Option RecoveryEntry := do
  let [state, nonterminal] ← fields? ["state", "goto_index"] value | none
  return ⟨← required? uint32? state, ← required? uint32? nonterminal⟩

end RecoveryEntry

namespace Recovery

def toJson (r : Recovery) : Json :=
  record [("terminal", uint32 r.terminal), ("entries", list RecoveryEntry.toJson r.entries)]

def ofJson? (value : Json) : Option Recovery := do
  let [terminal, entries] ← fields? ["terminal", "entries"] value | none
  return ⟨← required? uint32? terminal, ← required? (list? RecoveryEntry.ofJson?) entries⟩

end Recovery

namespace Grammar

def toJson (g : Grammar) : Json :=
  record [("tokens", list TokenInfo.toJson g.tokens.toList), ("lexer", g.lexer.toJson),
    ("comments", g.comments.toJson), ("states", list ParserState.toJson g.states.toList),
    ("nonterminals", list Nonterminal.toJson g.nonterminals.toList),
    ("rules", list Rule.toJson g.rules.toList),
    ("recoveries", list Recovery.toJson g.recoveries)]

def ofJson? (value : Json) : Option Grammar := do
  let [tokens, lexer, comments, states, nonterminals, rules, recoveries] ←
    fields? ["tokens", "lexer", "comments", "states", "nonterminals", "rules", "recoveries"] value
    | none
  return {
    tokens := ← required? (array? TokenInfo.ofJson?) tokens
    lexer := ← required? Automaton.ofJson? lexer
    comments := ← required? Automaton.ofJson? comments
    states := ← required? (array? ParserState.ofJson?) states
    nonterminals := ← required? (array? Nonterminal.ofJson?) nonterminals
    rules := ← required? (array? Rule.ofJson?) rules
    recoveries := ← required? (list? Recovery.ofJson?) recoveries }

end Grammar

end GrammarMachine
