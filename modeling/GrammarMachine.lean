import GrammarMachine.Main
import GrammarMachine.Proofs.Grammar.Blame
import GrammarMachine.Proofs.Grammar.Canonical
import GrammarMachine.Proofs.Grammar.Lookups
import GrammarMachine.Proofs.Grammar.PrefixFree
import GrammarMachine.Proofs.Graph.Unfolding
import GrammarMachine.Proofs.Lexer.Advance
import GrammarMachine.Proofs.Lexer.Comments
import GrammarMachine.Proofs.Lexer.Depth
import GrammarMachine.Proofs.Lexer.Munch
import GrammarMachine.Proofs.Lexer.Nesting
import GrammarMachine.Proofs.Lexer.Outlook
import GrammarMachine.Proofs.Lexer.Places
import GrammarMachine.Proofs.Lexer.Runs
import GrammarMachine.Proofs.Parse.Arithmetic
import GrammarMachine.Proofs.Parse.Bookkeeping
import GrammarMachine.Proofs.Parse.Expected
import GrammarMachine.Proofs.Parse.Folding
import GrammarMachine.Proofs.Parse.Forest
import GrammarMachine.Proofs.Parse.Locking
import GrammarMachine.Proofs.Parse.Ownership
import GrammarMachine.Proofs.Parse.Recoveries
import GrammarMachine.Proofs.Parse.Refusals
import GrammarMachine.Proofs.Parse.Rejections
import GrammarMachine.Proofs.Parse.Reordering
import GrammarMachine.Proofs.Parse.Replays
import GrammarMachine.Proofs.Parse.Resumptions
import GrammarMachine.Proofs.Parse.SourceOrder
import GrammarMachine.Proofs.Parse.Stopping
import GrammarMachine.Proofs.Parse.Summation
import GrammarMachine.Proofs.Shell.Conversion
import GrammarMachine.Proofs.Text.Substitution
import GrammarMachine.Shell.Memory
