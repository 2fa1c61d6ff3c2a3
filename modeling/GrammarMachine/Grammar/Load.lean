import GrammarMachine.Grammar.Binary
import GrammarMachine.Grammar.Check
import GrammarMachine.Grammar.Json
import GrammarMachine.Json.Reader
import GrammarMachine.Text.Scalar

/-!
Loading a compiled grammar from its binary or its JSON form. What is loaded has been checked. A
binary form that cannot be loaded is refused at the field in which the fault lies.
-/

namespace GrammarMachine

/-- The fields of the binary form. -/
inductive Field where
  | tokenCount
  | lexStateCount
  | lexDepth
  | commentStateCount
  | commentDepth
  | parserStateCount
  | nonterminalCount
  | ruleCount
  | recoveryCount
  | significantFlag
  | valueFlag
  | nameLength
  | nameCharacter
  | nameTerminator
  | recognizedToken
  | transitionCount
  | epsilonCount
  | epsilonTarget
  | continuationState
  | rangeTarget
  | rangeLow
  | rangeHigh
  | actionCount
  | actionKind
  | actionLow
  | actionHigh
  | actionIndex
  | attributeCount
  | gotoCount
  | attributeType
  | gotoSource
  | gotoTarget
  | ruleLength
  | ruleLhs
  | semanticActionCount
  | softFlag
  | targetDepth
  | targetAttribute
  | functionId
  | parameterCount
  | parameterDepth
  | parameterAttribute
  | recoveryTerminal
  | recoveryEntryCount
  | recoveryState
  | recoveryGoto
deriving DecidableEq, Repr

namespace Field

def name : Field → String
  | tokenCount => "token count"
  | lexStateCount => "lexical state count"
  | lexDepth => "lexical depth"
  | commentStateCount => "comment state count"
  | commentDepth => "comment depth"
  | parserStateCount => "parser state count"
  | nonterminalCount => "nonterminal count"
  | ruleCount => "rule count"
  | recoveryCount => "recovering terminal count"
  | significantFlag => "significant flag"
  | valueFlag => "value flag"
  | nameLength => "name length"
  | nameCharacter => "name character"
  | nameTerminator => "name terminator"
  | recognizedToken => "recognized token"
  | transitionCount => "transition count"
  | epsilonCount => "epsilon count"
  | epsilonTarget => "epsilon target"
  | continuationState => "continuation state"
  | rangeTarget => "range target"
  | rangeLow => "range low"
  | rangeHigh => "range high"
  | actionCount => "action count"
  | actionKind => "action kind"
  | actionLow => "action low terminal"
  | actionHigh => "action high terminal"
  | actionIndex => "action index"
  | attributeCount => "attribute count"
  | gotoCount => "goto count"
  | attributeType => "attribute type"
  | gotoSource => "goto source"
  | gotoTarget => "goto target"
  | ruleLength => "rule length"
  | ruleLhs => "rule lhs"
  | semanticActionCount => "semantic action count"
  | softFlag => "soft flag"
  | targetDepth => "target depth"
  | targetAttribute => "target attribute"
  | functionId => "function id"
  | parameterCount => "parameter count"
  | parameterDepth => "parameter depth"
  | parameterAttribute => "parameter attribute"
  | recoveryTerminal => "recovering terminal"
  | recoveryEntryCount => "recovery entry count"
  | recoveryState => "recovery state"
  | recoveryGoto => "recovery goto index"

/-- For a count, the least number of bytes that each of the counted records takes. -/
def recordSize : Field → Nat
  | tokenCount => 8
  | lexStateCount => 12
  | commentStateCount => 12
  | parserStateCount => 4
  | nonterminalCount => 8
  | ruleCount => 12
  | recoveryCount => 8
  | nameLength => 4
  | transitionCount => 12
  | epsilonCount => 8
  | actionCount => 13
  | attributeCount => 4
  | gotoCount => 8
  | semanticActionCount => 20
  | parameterCount => 8
  | recoveryEntryCount => 8
  | _ => 0

end Field

/-- Why a grammar could not be loaded. -/
inductive LoadError where
  | truncated (offset : Nat) (field : Field)
  | badCode (field : Field) (value : Int) (offset : Nat)
  | trailing (length : Nat)
  | invalid (defect : Defect)
  | json
deriving DecidableEq, Repr

def LoadError.message : LoadError → String
  | truncated offset field => s!"table truncated at byte {offset} while reading {field.name}"
  | badCode field value offset => s!"bad {field.name} value {value} at byte {offset}"
  | trailing length => s!"{length} trailing bytes after table"
  | invalid defect => s!"invalid table: {defect.message}"
  | json => "tables JSON: not the form of a table"

/-- The bytes still to be read, and how many came before them. -/
structure Stream where
  offset : Nat
  rest : List UInt8
deriving DecidableEq, Repr

abbrev Decoder := StateT Stream (Except LoadError)

namespace Decoder

/-- Are there at least `n` items? -/
def atLeast {α : Type} : Nat → List α → Bool
  | 0, _ => true
  | _ + 1, [] => false
  | n + 1, _ :: rest => atLeast n rest

theorem atLeast_iff {α : Type} {n : Nat} {xs : List α} : atLeast n xs = true ↔ n ≤ xs.length := by
  induction n generalizing xs with
  | zero => simp [atLeast]
  | succ n ih => cases xs <;> simp [atLeast, ih]

def offset : Decoder Nat := return (← get).offset

def byte (field : Field) : Decoder UInt8 := fun s =>
  match s.rest with
  | b :: rest => .ok (b, ⟨s.offset + 1, rest⟩)
  | [] => .error (.truncated s.offset field)

def word (field : Field) : Decoder UInt32 := fun s =>
  match s.rest with
  | a :: b :: c :: d :: rest => .ok (wordOf a b c d, ⟨s.offset + 4, rest⟩)
  | _ => .error (.truncated s.offset field)

def signed (field : Field) : Decoder Int32 := return (← word field).toInt32

def flag (field : Field) : Decoder Bool := do
  let start ← offset
  let w ← word field
  if w = 0 then return false
  if w = 1 then return true
  throw (.badCode field w.toNat start)

/-- A number of records, refused if what is left cannot hold them. -/
def count (field : Field) : Decoder Nat := do
  let start ← offset
  let n := (← word field).toNat
  if atLeast (n * field.recordSize) (← get).rest then return n
  throw (.badCode field n start)

/-- `n` records, one behind the other. -/
def many {α : Type} (record : Decoder α) : Nat → Decoder (List α)
  | 0 => return []
  | n + 1 => do
    let x ← record
    return x :: (← many record n)

/-- One record for each of these heads. -/
def each {α β : Type} (record : α → Decoder β) : List α → Decoder (List β)
  | [] => return []
  | head :: rest => do
    let x ← record head
    return x :: (← each record rest)

def nameCharacter : Decoder Char := do
  let start ← offset
  let code ← word .nameCharacter
  match Text.scalar? code with
  | some c => return c
  | none => throw (.badCode .nameCharacter code.toNat start)

def name : Decoder (Option String) := do
  let length ← count .nameLength
  if length = 0 then return none
  let chars ← many nameCharacter length
  let start ← offset
  let zero ← word .nameTerminator
  if zero = 0 then return some (String.ofList chars)
  throw (.badCode .nameTerminator zero.toNat start)

def tokenFlags : Decoder (Bool × Bool) := do
  let significant ← flag .significantFlag
  return (significant, ← flag .valueFlag)

def token (flags : Bool × Bool) : Decoder TokenInfo :=
  return ⟨← name, flags.1, flags.2⟩

/-- What stands in front of the lists of a lexical state. -/
structure LexHead where
  recognized : Recognition
  ranges : Nat
  epsilons : Nat

def lexHead : Decoder LexHead := do
  let start ← offset
  let code ← signed .recognizedToken
  match Recognition.ofCode? code with
  | none => throw (.badCode .recognizedToken code.toInt start)
  | some recognized =>
    let ranges ← count .transitionCount
    return ⟨recognized, ranges, ← count .epsilonCount⟩

def epsilon : Decoder Epsilon := do
  let target ← word .epsilonTarget
  let start ← offset
  let code ← signed .continuationState
  if 0 ≤ code then return ⟨target, some code.toUInt32⟩
  if code = -1 then return ⟨target, none⟩
  throw (.badCode .continuationState code.toInt start)

def range : Decoder CharRange := do
  let target ← word .rangeTarget
  let low ← signed .rangeLow
  return ⟨target, low, ← signed .rangeHigh⟩

def lexState (head : LexHead) : Decoder LexState := do
  let epsilons ← many epsilon head.epsilons
  let ranges ← many range head.ranges
  return ⟨head.recognized, epsilons, ranges.toArray⟩

def automaton (states : Nat) (maxDepth : UInt32) : Decoder Automaton := do
  let heads ← many lexHead states
  return ⟨(← each lexState heads).toArray, maxDepth⟩

def action : Decoder Action := do
  let start ← offset
  let b ← byte .actionKind
  match ActionKind.ofByte? b with
  | none => throw (.badCode .actionKind b.toNat start)
  | some kind =>
    let low ← word .actionLow
    let high ← word .actionHigh
    return ⟨kind, low, high, ← word .actionIndex⟩

def parserState : Decoder ParserState := do
  let n ← count .actionCount
  return ⟨(← many action n).toArray⟩

def goto : Decoder Goto := do
  let source ← word .gotoSource
  return ⟨source, ← word .gotoTarget⟩

def nonterminal : Decoder Nonterminal := do
  let attributes ← count .attributeCount
  let gotos ← count .gotoCount
  let types ← many (word .attributeType) attributes
  return ⟨types, (← many goto gotos).toArray⟩

/-- What stands in front of the parameters of a semantic action. -/
structure SemanticHead where
  soft : Bool
  target : Slot
  function : UInt32
  params : Nat

def semanticHead : Decoder SemanticHead := do
  let soft ← flag .softFlag
  let depth ← word .targetDepth
  let index ← word .targetAttribute
  let function ← word .functionId
  return ⟨soft, ⟨depth, index⟩, function, ← count .parameterCount⟩

def parameter : Decoder Slot := do
  let depth ← word .parameterDepth
  return ⟨depth, ← word .parameterAttribute⟩

def semanticAction (head : SemanticHead) : Decoder SemanticAction :=
  return ⟨head.soft, head.target, head.function, ← many parameter head.params⟩

def rule : Decoder Rule := do
  let length ← word .ruleLength
  let lhs ← word .ruleLhs
  let n ← count .semanticActionCount
  let heads ← many semanticHead n
  return ⟨length, lhs, (← each semanticAction heads).toArray⟩

def recoveryEntry : Decoder RecoveryEntry := do
  let state ← word .recoveryState
  return ⟨state, ← word .recoveryGoto⟩

def recovery : Decoder Recovery := do
  let terminal ← word .recoveryTerminal
  let n ← count .recoveryEntryCount
  return ⟨terminal, ← many recoveryEntry n⟩

/-- A grammar, not yet checked. -/
def grammar : Decoder Grammar := do
  let tokens ← count .tokenCount
  let lexStates ← count .lexStateCount
  let lexDepth ← word .lexDepth
  let commentStates ← count .commentStateCount
  let commentDepth ← word .commentDepth
  let states ← count .parserStateCount
  let nonterminals ← count .nonterminalCount
  let rules ← count .ruleCount
  let recoveries ← count .recoveryCount
  let flags ← many tokenFlags tokens
  let tokens ← each token flags
  let lexer ← automaton lexStates lexDepth
  let comments ← automaton commentStates commentDepth
  let states ← many parserState states
  let nonterminals ← many nonterminal nonterminals
  let rules ← many rule rules
  let recoveries ← many recovery recoveries
  return ⟨tokens.toArray, lexer, comments, states.toArray, nonterminals.toArray, rules.toArray,
    recoveries⟩

end Decoder

namespace Grammar

/-- Gives back a grammar that passes its check. -/
def checked (g : Grammar) : Except LoadError Grammar :=
  match g.check with
  | .ok () => .ok g
  | .error defect => .error (.invalid defect)

/-- Reads the binary form of a grammar. -/
def decode (bytes : List UInt8) : Except LoadError Grammar := do
  let (g, rest) ← Decoder.grammar ⟨0, bytes⟩
  if rest.rest.isEmpty then g.checked else .error (.trailing rest.rest.length)

/-- Reads the JSON form of a grammar. -/
def decodeJson (bytes : List UInt8) : Except LoadError Grammar :=
  match (Json.parse? bytes).bind ofJson? with
  | some g => g.checked
  | none => .error .json

end Grammar

end GrammarMachine
