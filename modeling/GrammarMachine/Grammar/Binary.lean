import GrammarMachine.Grammar.Basic

/-!
The binary form of a compiled grammar: little-endian words of four bytes, one byte for the kind of
an action. All counts of the top level come first; the sections follow in order, and within a
section the fixed parts of all records stand in front of the lists that they count.
-/

namespace GrammarMachine

/-- Bytes of a word, lowest first. -/
def wordBytes (w : UInt32) : List UInt8 :=
  let n := w.toNat
  [n.toUInt8, (n / 0x100).toUInt8, (n / 0x10000).toUInt8, (n / 0x1000000).toUInt8]

/-- The word with these bytes, lowest first. -/
def wordOf (a b c d : UInt8) : UInt32 :=
  (a.toNat + 0x100 * b.toNat + 0x10000 * c.toNat + 0x1000000 * d.toNat).toUInt32

@[simp]
theorem wordOf_wordBytes (w : UInt32) :
    wordOf w.toNat.toUInt8 (w.toNat / 0x100).toUInt8 (w.toNat / 0x10000).toUInt8
      (w.toNat / 0x1000000).toUInt8 = w := by
  have bound := w.toNat_lt
  apply UInt32.toNat_inj.1
  simp only [wordOf, UInt8.toNat_ofNat', UInt32.toNat_ofNat', Nat.toUInt8_eq, Nat.toUInt32_eq]
  omega

@[simp]
theorem wordBytes_wordOf (a b c d : UInt8) : wordBytes (wordOf a b c d) = [a, b, c, d] := by
  have ha := a.toNat_lt
  have hb := b.toNat_lt
  have hc := c.toNat_lt
  have hd := d.toNat_lt
  simp only [wordBytes, wordOf, List.cons.injEq, and_true, ← UInt8.toNat_inj, UInt8.toNat_ofNat',
    UInt32.toNat_ofNat', Nat.toUInt8_eq, Nat.toUInt32_eq]
  omega

namespace Binary

def word (w : UInt32) : List UInt8 := wordBytes w

def signed (w : Int32) : List UInt8 := wordBytes w.toUInt32

def size (n : Nat) : List UInt8 := wordBytes n.toUInt32

def flag (b : Bool) : List UInt8 := word (if b then 1 else 0)

/-- A name with its length in front and a zero behind it; no name is a length of zero. -/
def name (name : Option String) : List UInt8 :=
  let chars := (name.getD "").toList
  if chars.isEmpty then word 0
  else size chars.length ++ chars.flatMap (fun c => word c.val) ++ word 0

def tokenFlags (t : TokenInfo) : List UInt8 := flag t.significant ++ flag t.carriesValue

def lexHead (s : LexState) : List UInt8 :=
  signed s.recognized.code ++ size s.ranges.size ++ size s.epsilons.length

def epsilon (e : Epsilon) : List UInt8 :=
  word e.target ++ signed ((e.continuation.map UInt32.toInt32).getD (-1))

def range (r : CharRange) : List UInt8 := word r.target ++ signed r.low ++ signed r.high

def lexBody (s : LexState) : List UInt8 :=
  s.epsilons.flatMap epsilon ++ s.ranges.toList.flatMap range

def automaton (a : Automaton) : List UInt8 :=
  a.states.toList.flatMap lexHead ++ a.states.toList.flatMap lexBody

def action (a : Action) : List UInt8 := a.kind.byte :: word a.low ++ word a.high ++ word a.aux

def parserState (s : ParserState) : List UInt8 :=
  size s.actions.size ++ s.actions.toList.flatMap action

def goto (p : Goto) : List UInt8 := word p.source ++ word p.target

def nonterminal (n : Nonterminal) : List UInt8 :=
  size n.attributeTypes.length ++ size n.gotos.size ++ n.attributeTypes.flatMap word
    ++ n.gotos.toList.flatMap goto

def slot (s : Slot) : List UInt8 := word s.depth ++ word s.index

def semanticHead (a : SemanticAction) : List UInt8 :=
  flag a.soft ++ slot a.target ++ word a.function ++ size a.params.length

def rule (r : Rule) : List UInt8 :=
  word r.length ++ word r.lhs ++ size r.actions.size ++ r.actions.toList.flatMap semanticHead
    ++ r.actions.toList.flatMap fun a => a.params.flatMap slot

def recoveryEntry (e : RecoveryEntry) : List UInt8 := word e.state ++ word e.nonterminal

def recovery (r : Recovery) : List UInt8 :=
  word r.terminal ++ size r.entries.length ++ r.entries.flatMap recoveryEntry

def header (g : Grammar) : List UInt8 :=
  size g.tokens.size ++ size g.lexer.states.size ++ word g.lexer.maxDepth
    ++ size g.comments.states.size ++ word g.comments.maxDepth ++ size g.states.size
    ++ size g.nonterminals.size ++ size g.rules.size ++ size g.recoveries.length

end Binary

/-- The binary form of a grammar. -/
def Grammar.encode (g : Grammar) : List UInt8 :=
  Binary.header g
    ++ g.tokens.toList.flatMap Binary.tokenFlags
    ++ g.tokens.toList.flatMap (fun t => Binary.name t.name)
    ++ Binary.automaton g.lexer
    ++ Binary.automaton g.comments
    ++ g.states.toList.flatMap Binary.parserState
    ++ g.nonterminals.toList.flatMap Binary.nonterminal
    ++ g.rules.toList.flatMap Binary.rule
    ++ g.recoveries.flatMap Binary.recovery

end GrammarMachine
