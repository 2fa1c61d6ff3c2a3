import GrammarMachine.Grammar.Lookup

/-!
What a grammar has to satisfy before it is run, and the first defect of one that does not.
-/

namespace GrammarMachine

/-- The two automata of a grammar. -/
inductive Part where
  | lexer
  | comment
deriving DecidableEq, Repr

def Part.label : Part → String
  | lexer => "lexer"
  | comment => "comment"

/-- What is wrong with a lexical state. -/
inductive LexDefect where
  | commentClass (id : UInt32)
  | token (id : UInt32)
  | commentMark
  | epsilon
  | depth
  | rangeTarget
  | ranges (low high : Int32)
deriving DecidableEq, Repr

namespace LexDefect

def message : LexDefect → String
  | commentClass id => s!"comment class {id} out of range"
  | token id => s!"token {id} out of range"
  | commentMark => "comment markers inside the comment automaton"
  | epsilon => "epsilon out of range"
  | depth => "followed-by transition with max depth 0"
  | rangeTarget => "range target out of range"
  | ranges low high =>
    "ranges unsorted or overlapping at [" ++ toString low.toInt ++ ", " ++ toString high.toInt
      ++ "]"

end LexDefect

/-- What is wrong with a parser state. -/
inductive StateDefect where
  | noActions
  | noCatchAll
  | ranges
  | terminal
  | index (kind : ActionKind) (aux : UInt32)
deriving DecidableEq, Repr

namespace StateDefect

def message : StateDefect → String
  | noActions => "no actions"
  | noCatchAll => "last action is not the error catch-all"
  | ranges => "terminal ranges unsorted or overlapping"
  | terminal => "terminal out of range"
  | index kind aux => s!"{kind.name} index {aux} out of range"

end StateDefect

/-- What is wrong with a rule. -/
inductive RuleDefect where
  | lhs (id : UInt32)
  | depth (given length : UInt32)
  | target (index : UInt32)
  | copy (params : Nat)
deriving DecidableEq, Repr

namespace RuleDefect

def message : RuleDefect → String
  | lhs id => s!"lhs {id} out of range"
  | depth given length => s!"attribute depth {given} beyond rule length {length}"
  | target index => s!"target attribute {index} out of range"
  | copy params => s!"copy action with {params} parameters"

end RuleDefect

inductive Defect where
  | noTokens
  | emptyName
  | emptyLexer
  | lexState (part : Part) (index : Nat) (defect : LexDefect)
  | missingComments
  | noStates
  | parserState (index : Nat) (defect : StateDefect)
  | gotoRange (nonterminal : Nat)
  | gotoOrder (nonterminal : Nat)
  | rule (index : Nat) (defect : RuleDefect)
  | recoveryTerminal (terminal : UInt32)
  | recoveryEntry (terminal : UInt32)
deriving DecidableEq, Repr

namespace Defect

def message : Defect → String
  | noTokens => "no tokens (terminal 0 is end of text)"
  | emptyName => "empty token name"
  | emptyLexer => "empty lexical automaton"
  | lexState part index defect => s!"{part.label} state {index}: {defect.message}"
  | missingComments => "comment marker without a comment automaton"
  | noStates => "no parser states"
  | parserState index defect => s!"parser state {index}: {defect.message}"
  | gotoRange nonterminal => s!"nonterminal {nonterminal}: goto out of range"
  | gotoOrder nonterminal => s!"nonterminal {nonterminal}: goto pairs unsorted"
  | rule index defect => s!"rule {index}: {defect.message}"
  | recoveryTerminal terminal => s!"recovering terminal {terminal} out of range"
  | recoveryEntry terminal => s!"recovery entry for terminal {terminal} out of range"

end Defect

/-- Passes, unless `bad` holds. -/
def refuse {ε : Type} (bad : Bool) (defect : ε) : Except ε Unit :=
  if bad then .error defect else .ok ()

@[simp]
theorem refuse_eq_ok_iff {ε : Type} {bad : Bool} {defect : ε} :
    refuse bad defect = .ok () ↔ bad = false := by
  cases bad <;> simp [refuse]

/-- Checks the items of a list in order. -/
def checkEach {α ε : Type} (check : α → Except ε Unit) : List α → Except ε Unit
  | [] => .ok ()
  | x :: rest => do
    check x
    checkEach check rest

/-- Checks the items of a list in order, numbered from `i`. -/
def checkFrom {α ε : Type} (check : Nat → α → Except ε Unit) : Nat → List α → Except ε Unit
  | _, [] => .ok ()
  | i, x :: rest => do
    check i x
    checkFrom check (i + 1) rest

/-- Does `low` fail to come after the bound in front of it? -/
def meets {α : Type} [LE α] [DecidableLE α] (last : Option α) (low : α) : Bool :=
  match last with
  | some high => low ≤ high
  | none => false

namespace LexState

def checkRecognition (part : Part) (tokens : Nat) : Recognition → Except LexDefect Unit
  | .token id =>
    match part with
    | .comment => refuse (commentEof < id) (.commentClass id)
    | .lexer => refuse (tokens ≤ id.toNat) (.token id)
  | .commentStart => refuse (part == .comment) .commentMark
  | .commentEnd => refuse (part == .comment) .commentMark
  | .nothing => .ok ()
  | .followAccept => .ok ()

def checkEpsilon (a : Automaton) (e : Epsilon) : Except LexDefect Unit := do
  let outside (id : UInt32) : Bool := a.states.size ≤ id.toNat
  refuse (outside e.target || e.continuation.any outside) .epsilon
  refuse (e.continuation.isSome && a.maxDepth == 0) .depth

/-- Checks ranges in order; `last` is the upper bound of the one in front. -/
def checkRanges (states : Nat) : Option Int32 → List CharRange → Except LexDefect Unit
  | _, [] => .ok ()
  | last, r :: rest => do
    refuse (states ≤ r.target.toNat) .rangeTarget
    refuse (r.high < r.low || meets last r.low) (.ranges r.low r.high)
    checkRanges states (some r.high) rest

def check (a : Automaton) (part : Part) (tokens : Nat) (s : LexState) :
    Except LexDefect Unit := do
  checkRecognition part tokens s.recognized
  checkEach (checkEpsilon a) s.epsilons
  checkRanges a.states.size none s.ranges.toList

end LexState

/-- Names the defect of an item by its number. -/
def within {ε δ : Type} (wrap : ε → δ) : Except ε Unit → Except δ Unit
  | .ok () => .ok ()
  | .error e => .error (wrap e)

def Automaton.check (a : Automaton) (part : Part) (tokens : Nat) : Except Defect Unit :=
  checkFrom (fun i s => within (.lexState part i) (s.check a part tokens)) 0 a.states.toList

namespace ParserState

/-- Is the state or rule that an entry leads to there? -/
def reaches (states rules : Nat) (a : Action) : Bool :=
  match a.kind with
  | .shift => a.aux.toNat < states
  | .reduce => a.aux.toNat < rules
  | .accept => true
  | .error => true

/-- Checks entries in order; `last` is the upper bound of the one in front. -/
def checkActions (g : Grammar) : Option UInt32 → List Action → Except StateDefect Unit
  | _, [] => .ok ()
  | last, a :: rest => do
    refuse (a.high < a.low || meets last a.low) .ranges
    refuse (g.tokens.size ≤ a.high.toNat) .terminal
    refuse (!reaches g.states.size g.rules.size a) (.index a.kind a.aux)
    checkActions g (some a.high) rest

def check (g : Grammar) (s : ParserState) : Except StateDefect Unit :=
  match s.actions.back? with
  | none => .error .noActions
  | some last => do
    refuse (last.kind != .error) .noCatchAll
    checkActions g none s.declared.toList

end ParserState

namespace Nonterminal

/-- Checks goto pairs in order; `last` is the source of the one in front. -/
def checkGotos (g : Grammar) (index : Nat) : Option UInt32 → List Goto → Except Defect Unit
  | _, [] => .ok ()
  | last, pair :: rest => do
    refuse (g.states.size ≤ pair.source.toNat || g.states.size ≤ pair.target.toNat)
      (.gotoRange index)
    refuse (meets last pair.source) (.gotoOrder index)
    checkGotos g index (some pair.source) rest

end Nonterminal

namespace Rule

def checkAction (attributes : Nat) (r : Rule) (a : SemanticAction) : Except RuleDefect Unit := do
  checkEach (fun (s : Slot) => refuse (r.length < s.depth) (.depth s.depth r.length))
    (a.target :: a.params)
  refuse (a.target.depth == 0 && attributes ≤ a.target.index.toNat) (.target a.target.index)
  refuse (a.isCopy && a.params.length != 1) (.copy a.params.length)

def check (g : Grammar) (r : Rule) : Except RuleDefect Unit :=
  match g.nonterminals[r.lhs.toNat]? with
  | none => .error (.lhs r.lhs)
  | some n => checkEach (checkAction n.attributeCount r) r.actions.toList

end Rule

def Recovery.check (g : Grammar) (r : Recovery) : Except Defect Unit := do
  refuse (g.tokens.size ≤ r.terminal.toNat) (.recoveryTerminal r.terminal)
  checkEach (fun (e : RecoveryEntry) =>
    refuse (g.states.size ≤ e.state.toNat || g.nonterminals.size ≤ e.nonterminal.toNat)
      (.recoveryEntry r.terminal)) r.entries

namespace Grammar

/-- Checks a grammar; the first defect found is the answer. -/
def check (g : Grammar) : Except Defect Unit := do
  refuse g.tokens.isEmpty .noTokens
  refuse (g.tokens.toList.any fun t => t.name == some "") .emptyName
  refuse g.lexer.isEmpty .emptyLexer
  g.lexer.check .lexer g.tokens.size
  g.comments.check .comment g.tokens.size
  refuse ((g.lexer.states.toList.any fun s => s.recognized == .commentStart) && g.comments.isEmpty)
    .missingComments
  refuse g.states.isEmpty .noStates
  checkFrom (fun i (s : ParserState) => within (.parserState i) (s.check g)) 0 g.states.toList
  checkFrom (fun i (n : Nonterminal) => n.gotos.toList |> Nonterminal.checkGotos g i none)
    0 g.nonterminals.toList
  checkFrom (fun i (r : Rule) => within (.rule i) (r.check g)) 0 g.rules.toList
  checkEach (Recovery.check g) g.recoveries

end Grammar

end GrammarMachine
