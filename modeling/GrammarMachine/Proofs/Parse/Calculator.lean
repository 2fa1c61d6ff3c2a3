import GrammarMachine.Proofs.Parse.Chart
import GrammarMachine.Proofs.Parse.Termination

/-!
The calculator accepts the language of its productions. Its tables are those of an automaton with
twelve states, in which a rule is reduced on all that can follow its left-hand side.
-/

namespace GrammarMachine

namespace Samples.Calculator

/-- The productions that the rules stand for. -/
def productions : List (ContextFreeRule UInt32 UInt32) := [
  ⟨expr, [.nonterminal expr, .terminal plus, .nonterminal term]⟩,
  ⟨expr, [.nonterminal term]⟩,
  ⟨term, [.nonterminal term, .terminal star, .nonterminal factor]⟩,
  ⟨term, [.nonterminal factor]⟩,
  ⟨factor, [.terminal openParen, .nonterminal expr, .terminal closeParen]⟩,
  ⟨factor, [.terminal number]⟩]

/-- Edges of a state in which an operand starts. -/
def operandEdges (source : UInt32) : List Edge :=
  [⟨source, .terminal number, 5⟩, ⟨source, .terminal openParen, 4⟩]

def chart : Chart where
  start := expr
  productions
  edges := [0, 4, 6, 7].flatMap operandEdges ++ [
    ⟨0, .nonterminal expr, 1⟩, ⟨0, .nonterminal term, 2⟩, ⟨0, .nonterminal factor, 3⟩,
    ⟨4, .nonterminal expr, 8⟩, ⟨4, .nonterminal term, 2⟩, ⟨4, .nonterminal factor, 3⟩,
    ⟨6, .nonterminal term, 9⟩, ⟨6, .nonterminal factor, 3⟩, ⟨7, .nonterminal factor, 10⟩,
    ⟨1, .terminal plus, 6⟩, ⟨8, .terminal plus, 6⟩, ⟨2, .terminal star, 7⟩,
    ⟨9, .terminal star, 7⟩, ⟨8, .terminal closeParen, 11⟩]
  first _ := [number, openParen]
  follow n :=
    if n = expr then [endOfText, plus, closeParen] else [endOfText, plus, star, closeParen]

theorem chart_fits (flavor : Flavor) : chart.Fits (grammar flavor) := by
  constructor <;> cases flavor <;> decide +kernel

theorem Machine.commands_binary (call : Call Int) (operation : Int → Int → Int)
    (overflow : String) : (binary call operation overflow).commands = [] := by
  unfold binary
  split
  · split <;> rfl
  · rfl

theorem Machine.commands_answer (call : Call Int) : (answer call).commands = [] := by
  unfold answer
  split_ifs
  · unfold evaluateNumber
    split
    · rfl
    · split <;> rfl
  · exact commands_binary ..
  · exact commands_binary ..
  · rfl

/-- The host of the hard flavour goes on after errors, unless its log says otherwise. -/
theorem host_patient : host.Patient fun m => m.log.stopOnFirst = false where
  execute call control m going := ⟨by simp [host, Machine.commands_answer], going⟩
  error report control m going := ⟨by simp [host, ErrorLog.add, going], going⟩

end Samples.Calculator

open Samples.Calculator

variable {σ V : Type} {h : Host σ V} {I : σ → Prop}

/-- Under a host that never stops it, the calculator comes to an outcome for every text, and
accepts it without an error exactly if the tokens of the text come without a diagnostic and are
derived by the productions. -/
theorem calculator_accepts_its_language (flavor : Flavor) (patient : h.Patient I) (source : Source)
    {host : σ} (inside : I host) :
    (∃ fuel outcome, parse (grammar flavor) h .default fuel source host = .ok (some outcome)) ∧
      ∀ fuel outcome, parse (grammar flavor) h .default fuel source host = .ok (some outcome) →
        (outcome.ok = true ↔ ∃ tokens,
          (Lexer.start source).tokens (grammar flavor) = .ok (tokens, []) ∧
            tokens.map Token.id ∈ (contextFree expr productions).language) := by
  have sound := Grammar.sound_of_check (check_grammar flavor)
  have fits := chart_fits flavor
  constructor
  · exact exists_parseUnder sound (terminating flavor) h _ _ source host
  · intro fuel outcome ends
    rw [ok_parse_iff patient (fits.endsLast sound) inside ends,
      Lexer.tokens_quiet_iff sound (Cursor.faithful_start source)]
    simp only [fits.accepts_iff sound]
    rfl

/-- A product of a number and a sum, with a comment in between. -/
theorem product_in_calculator_language :
    host.Patient (fun m => m.log.stopOnFirst = false) ∧
      (Machine.start false).log.stopOnFirst = false ∧ ∃ outcome,
        parse (grammar .hard) host .default 40 (.ofText "2* /* x */(3+4)" false)
          (Machine.start false) = .ok (some outcome) ∧ outcome.ok = true ∧
        [number, star, openParen, number, plus, number, closeParen] ∈
          (contextFree expr productions).language := by
  have ran : (parse (grammar .hard) host .default 40 (.ofText "2* /* x */(3+4)" false)
      (Machine.start false)).toOption.bind (Option.map Outcome.ok) = some true := by
    decide +kernel
  have lexed : ((Lexer.start (.ofText "2* /* x */(3+4)" false)).tokens (grammar .hard)).toOption.map
      (fun found => found.1.map Token.id) =
        some [number, star, openParen, number, plus, number, closeParen] := by
    decide +kernel
  obtain ⟨result, whole, found⟩ := Option.bind_eq_some_iff.1 ran
  obtain ⟨outcome, rfl, ok⟩ := Option.map_eq_some_iff.1 found
  have ended := eq_ok_of_toOption whole
  obtain ⟨tokens, all, derived⟩ := ((calculator_accepts_its_language .hard host_patient _ rfl).2
    40 outcome ended).1 ok
  rw [all] at lexed
  exact ⟨host_patient, rfl, outcome, ended, ok, Option.some.inj lexed ▸ derived⟩

end GrammarMachine
