import GrammarMachine.Host
import GrammarMachine.Text.Decimal

/-!
What the hosts of the sample grammars share: a list of reports, and integers of 64 bits.
-/

namespace GrammarMachine.Samples

/-- Reports in the order of their arrival. -/
structure ErrorLog where
  reports : Array Report
  /-- Ask the parse to stop on the first report. -/
  stopOnFirst : Bool

namespace ErrorLog

def start (stopOnFirst : Bool) : ErrorLog := ⟨#[], stopOnFirst⟩

def add (log : ErrorLog) (report : Report) : List Command × ErrorLog :=
  (if log.stopOnFirst then [.stop] else [], { log with reports := log.reports.push report })

end ErrorLog

/-- The integer, if it fits into 64 bits. -/
def int64? (n : Int) : Option Int :=
  if -0x8000000000000000 ≤ n && n < 0x8000000000000000 then some n else none

/-- The integer of 64 bits that a numeral spells. -/
def numeral? (text : String) : Option Int :=
  (Text.integer? text.toList).bind int64?

end GrammarMachine.Samples
