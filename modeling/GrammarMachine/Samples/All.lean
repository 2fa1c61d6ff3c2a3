import GrammarMachine.Samples.Calculator
import GrammarMachine.Samples.Keyword
import GrammarMachine.Samples.Summation

/-!
The sample grammars under the names of their files.
-/

namespace GrammarMachine.Samples

def all : List (String × Grammar) :=
  [("calc", Calculator.grammar .hard),
    ("calc_tree", Calculator.grammar .soft),
    ("sum", Summation.grammar),
    ("follow", Keyword.grammar)]

end GrammarMachine.Samples
