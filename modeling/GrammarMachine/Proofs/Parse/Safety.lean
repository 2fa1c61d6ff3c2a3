import GrammarMachine.Parse.Run
import GrammarMachine.Proofs.Parse.Steps
import GrammarMachine.Samples.Calculator
import GrammarMachine.Samples.Summation

/-!
Whole parses. A parse starts in a sound state and every step keeps it sound, so that nothing can be
missing on the way: a checked grammar is safe to run on every source, with every host, for any
number of steps.
-/

namespace GrammarMachine

open Evaluation

variable {σ V : Type} {g : Grammar} {h : Host σ V} {options : Options}

/-- The evaluation before the first token is read. -/
def Evaluation.initial (control : Control) (host : σ) : Evaluation σ V :=
  ⟨.empty, [], control, host, .zero⟩

theorem Graph.sound_empty (g : Grammar) : (Graph.empty : Graph V).Sound g where
  linked := Graph.linked_empty
  bound found := nomatch Graph.lt_size found
  parked _ mem := nomatch mem

theorem Evaluation.sound_initial (g : Grammar) (control : Control) (host : σ) :
    (initial control host : Evaluation σ V).Sound g :=
  ⟨Graph.sound_empty g, fun _ mem => nomatch mem⟩

namespace Config

variable {c c' : Config σ V}

theorem yields_start (sound : g.Sound) (h : Host σ V) (source : Source) (control : Control)
    (host : σ) :
    Yields (Config.start g h source control host) fun c =>
      c.Sound g ∧ Runs g h (.initial control host) [] c.eval := by
  have empty := sound_initial (V := V) g control host
  have faithful : (Lexer.start source).cursor.Faithful := Cursor.faithful_start source
  refine (yields_pull sound faithful _).bind fun (token, lexer, eval) ⟨delivers, same⟩ => ?_
  have bottom : Standing g eval.graph [⟨0, [], token.origin⟩] :=
    Standing.cons ⟨by simp, by simp⟩ sound.root (by simp)
  exact .pure ⟨⟨delivers.leads.faithful, same.sound empty, same.queue, bottom, delivers.known⟩,
    .of_move (.note same)⟩

/-- The states between the steps of a parse, the last one included. -/
inductive Reached (g : Grammar) (h : Host σ V) (options : Options) (control : Control)
    (source : Source) (host : σ) : Config σ V → Prop
  | start {c : Config σ V} (begun : Config.start g h source control host = .ok c) :
      Reached g h options control source host c
  | step {c : Config σ V} {p : Progress (Config σ V)}
      (reached : Reached g h options control source host c)
      (result : c.advance g h options = .ok p) : Reached g h options control source host p.state

theorem Reached.sound {control : Control} {source : Source} {host : σ}
    (sound : g.Sound) (reached : Reached g h options control source host c) :
    c.Sound g ∧ ∃ events, Runs g h (.initial control host) events c.eval := by
  induction reached with
  | start begun =>
    obtain ⟨c, eq, healthy, run⟩ := yields_start sound h source control host
    cases begun.symm.trans eq
    exact ⟨healthy, [], run⟩
  | step _ result ih =>
    obtain ⟨healthy, events, run⟩ := ih
    obtain ⟨p, eq, follows⟩ : Yields (Config.advance g h options _) _ :=
      yields_advance sound healthy
    cases result.symm.trans eq
    exact ⟨follows.sound, _, run.trans follows.run⟩

/-- The state after at most `n` steps, or where the parse ended before. -/
def last (g : Grammar) (h : Host σ V) (options : Options) : Nat → Config σ V → Config σ V
  | 0, c => c
  | n + 1, c =>
    match c.advance g h options with
    | .ok (.more next) => last g h options n next
    | .ok (.done _ last) => last
    | .error _ => c

theorem Reached.last {control : Control} {source : Source} {host : σ}
    (reached : Reached g h options control source host c) (n : Nat) :
    Reached g h options control source host (c.last g h options n) := by
  induction n generalizing c with
  | zero => exact reached
  | succ n ih =>
    unfold Config.last
    split
    · next next result => exact ih (reached.step result)
    · next last result => exact reached.step result
    · exact reached

theorem yields_run (sound : g.Sound) (healthy : c.Sound g) (fuel : Nat) :
    Yields (c.run g h options fuel) fun _ => True := by
  induction fuel generalizing c with
  | zero => exact .ok trivial
  | succ fuel ih =>
    unfold run
    refine (yields_advance sound healthy).bind fun p follows => ?_
    cases p with
    | more next => exact ih follows.sound
    | done accepted last => exact .pure trivial

end Config

section Samples

theorem Samples.Calculator.check_grammar (flavor : Calculator.Flavor) :
    (Calculator.grammar flavor).check = .ok () := by
  refine eq_ok_of_toOption ?_
  cases flavor <;> decide +kernel

theorem Samples.Summation.check_grammar : Summation.grammar.check = .ok () :=
  eq_ok_of_toOption (by decide +kernel)

end Samples

/-- A checked grammar is safe to run: no parse, started under any control and taken any number of
steps, ends in a fault. -/
theorem parse_ends_without_fault (valid : g.check = .ok ()) (h : Host σ V) (control : Control)
    (options : Options) (fuel : Nat) (source : Source) (host : σ) :
    ∃ result, parseUnder control g h options fuel source host = .ok result := by
  have sound := Grammar.sound_of_check valid
  have whole : Yields (parseUnder control g h options fuel source host) fun _ => True :=
    (Config.yields_start sound h source control host).bind fun c ⟨healthy, _⟩ =>
      Config.yields_run sound healthy fuel
  obtain ⟨result, eq, _⟩ := whole
  exact ⟨result, eq⟩

/-- On an unclosed comment behind an operand that is missing. -/
theorem calculator_parse_ends_without_fault :
    (Samples.Calculator.grammar .hard).check = .ok () ∧
      ∃ result, parseUnder .initial (Samples.Calculator.grammar .hard) Samples.Calculator.host
        .default 100 (.ofText "1+*(2 /* x" false) (Samples.Calculator.Machine.start false) =
        .ok result := by
  have valid := Samples.Calculator.check_grammar .hard
  exact ⟨valid, parse_ends_without_fault valid _ _ _ _ _ _⟩

end GrammarMachine
