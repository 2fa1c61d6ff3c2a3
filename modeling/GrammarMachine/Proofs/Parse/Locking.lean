import GrammarMachine.Proofs.Evaluation.Callbacks
import GrammarMachine.Proofs.Parse.Independence
import Mathlib.Data.List.TakeWhile

/-!
What a lock changes. A parse that calls no functions once an error has been seen and one that goes
on calling do the same until the first error is reported. From then on the first makes no more
calls; what it does with its text does not depend on that.
-/

namespace GrammarMachine

open Evaluation Config

section Journals

variable {V : Type}

def Exchange.isReport : Exchange V → Bool
  | called _ _ _ => false
  | reported _ _ _ => true

/-- A call with its answer. -/
def Exchange.call? : Exchange V → Option (Call V × Answer V)
  | called call _ answer => some (call, answer)
  | reported _ _ _ => none

/-- The calls of a journal, in order. -/
def calls (journal : List (Exchange V)) : List (Call V × Answer V) :=
  journal.filterMap Exchange.call?

/-- The part of a journal that comes before the first report. -/
def beforeReport (journal : List (Exchange V)) : List (Exchange V) :=
  journal.takeWhile fun exchange => !exchange.isReport

variable {journal more : List (Exchange V)} {exchange : Exchange V}

theorem calls_append : calls (journal ++ more) = calls journal ++ calls more :=
  List.filterMap_append

theorem calls_of_isReport (report : exchange.isReport = true) : calls [exchange] = [] := by
  cases exchange with
  | called => cases report
  | reported => rfl

theorem beforeReport_of_silent (silent : ∀ exchange ∈ journal, exchange.isReport = false) :
    beforeReport journal = journal :=
  List.takeWhile_eq_self_iff.2 fun exchange mem => by rw [silent exchange mem]; rfl

theorem beforeReport_append (reported : ∃ exchange ∈ journal, exchange.isReport = true) :
    beforeReport (journal ++ more) = beforeReport journal := by
  unfold beforeReport
  induction journal with
  | nil =>
    obtain ⟨_, mem, _⟩ := reported
    cases mem
  | cons exchange rest ih =>
    rw [List.cons_append, List.takeWhile_cons, List.takeWhile_cons]
    cases report : exchange.isReport with
    | true => rfl
    | false =>
      obtain ⟨found, mem, other⟩ := reported
      rcases List.mem_cons.1 mem with rfl | later
      · cases report.symm.trans other
      · rw [ih ⟨found, later, other⟩]

end Journals

/-- In the states of `I`, which it does not leave, the host gives no commands and takes no notice of
the control. -/
structure Host.Detached {σ V : Type} (h : Host σ V) (I : σ → Prop) : Prop where
  execute : ∀ call control s, I s →
    (∀ control', h.execute call control' s = h.execute call control s) ∧
      (h.execute call control s).1.commands = [] ∧ I (h.execute call control s).2
  error : ∀ report control s, I s →
    (∀ control', h.error report control' s = h.error report control s) ∧
      (h.error report control s).1 = [] ∧ I (h.error report control s).2

theorem Host.Detached.patient {σ V : Type} {h : Host σ V} {I : σ → Prop}
    (detached : h.Detached I) : h.Patient I where
  execute call control s inside := by
    obtain ⟨_, commands, stays⟩ := detached.execute call control s inside
    exact ⟨commands ▸ List.not_mem_nil, stays⟩
  error report control s inside := by
    obtain ⟨_, commands, stays⟩ := detached.error report control s inside
    exact ⟨commands ▸ List.not_mem_nil, stays⟩

theorem Host.projects_journaling {σ V : Type} (h : Host σ V) : h.journaling.Projects Prod.fst h :=
  ⟨fun _ _ _ => rfl, fun _ _ _ => rfl, fun _ => rfl⟩

namespace Evaluation

variable {σ V : Type} {h : Host σ V} {I : σ → Prop}
  {e e₁ e₁' e₂ e₂' : Evaluation (σ × List (Exchange V)) V}

theorem report_of_detached (detached : h.Detached I) (inside : I e.host.1) (kind : ErrorKind)
    (o : Origin) (m : Message) :
    (e.report h.journaling kind o m).control = e.control ∧
      I (e.report h.journaling kind o m).host.1 ∧
      ∃ exchange, exchange.isReport = true ∧
        (e.report h.journaling kind o m).host.2 = e.host.2 ++ [exchange] := by
  obtain ⟨_, commands, stays⟩ := detached.error
    ⟨kind, o, h.message e.host.1 m.key.name m.args⟩ e.control e.host.1 inside
  refine ⟨?_, stays, .reported _ _ _, rfl, rfl⟩
  simp only [report, Host.journaling, commands]
  rfl

theorem called_of_detached (detached : h.Detached I) (inside : I e.host.1) (call : Call V) :
    (e.called h.journaling call).control = e.control ∧
      I (e.called h.journaling call).host.1 ∧
      (e.called h.journaling call).host.2 = e.host.2 ++
        [.called call e.control (h.execute call e.control e.host.1).1] := by
  obtain ⟨_, commands, stays⟩ := detached.execute call e.control e.host.1 inside
  refine ⟨?_, stays, rfl⟩
  simp only [called, Host.journaling, commands]
  rfl

/-- Nothing has been reported. The first evaluation is to lock when something is, and does what the
second one does. -/
structure Together (I : σ → Prop) (e₁ e₂ : Evaluation (σ × List (Exchange V)) V) : Prop where
  graph : e₂.graph = e₁.graph
  queue : e₂.queue = e₁.queue
  stats : e₂.stats = e₁.stats
  host : e₂.host.1 = e₁.host.1
  inside : I e₁.host.1
  locking : e₁.control = ⟨false, true⟩
  free : e₂.control = ⟨false, false⟩
  clean : e₁.stats.errors = 0
  calls : calls e₁.host.2 = calls e₂.host.2
  silent : ∀ exchange ∈ e₂.host.2, exchange.isReport = false

/-- Something has been reported. The first evaluation has made the calls that the second one made
before. -/
structure Apart (I : σ → Prop) (e₁ e₂ : Evaluation (σ × List (Exchange V)) V) : Prop where
  inside₁ : I e₁.host.1
  inside₂ : I e₂.host.1
  locking : e₁.control = ⟨false, true⟩
  free : e₂.control = ⟨false, false⟩
  failed : 0 < e₁.stats.errors
  reported : ∃ exchange ∈ e₂.host.2, exchange.isReport = true
  calls : calls e₁.host.2 = calls (beforeReport e₂.host.2)

/-- Both graphs change alike, and what is counted is no error. -/
theorem Together.update (together : Together I e₁ e₂) (graph : Graph V → Graph V)
    (stats : Stats → Stats) (errors : ∀ s, (stats s).errors = s.errors) :
    Together I { e₁ with graph := graph e₁.graph, stats := stats e₁.stats }
      { e₂ with graph := graph e₂.graph, stats := stats e₂.stats } where
  graph := congrArg graph together.graph
  queue := together.queue
  stats := congrArg stats together.stats
  host := together.host
  inside := together.inside
  locking := together.locking
  free := together.free
  clean := (errors e₁.stats).trans together.clean
  calls := together.calls
  silent := together.silent

theorem Together.report (together : Together I e₁ e₂) (detached : h.Detached I) (kind : ErrorKind)
    (o : Origin) (m₁ m₂ : Message) :
    Apart I (e₁.report h.journaling kind o m₁) (e₂.report h.journaling kind o m₂) := by
  have inside₂ : I e₂.host.1 := together.host ▸ together.inside
  obtain ⟨control₁, stays₁, x₁, report₁, journal₁⟩ :=
    report_of_detached detached together.inside kind o m₁
  obtain ⟨control₂, stays₂, x₂, report₂, journal₂⟩ :=
    report_of_detached detached inside₂ kind o m₂
  refine ⟨stays₁, stays₂, control₁.trans together.locking, control₂.trans together.free, ?_, ?_, ?_⟩
  · exact Nat.lt_of_lt_of_eq (Nat.succ_pos _) (Stats.errors_count e₁.stats kind).symm
  · exact ⟨x₂, by simp [journal₂], report₂⟩
  · have ends : beforeReport (e₂.host.2 ++ [x₂]) = e₂.host.2 := by
      have before := beforeReport_of_silent together.silent
      unfold beforeReport at before ⊢
      rw [List.takeWhile_append, before, if_pos rfl]
      simp [report₂]
    rw [journal₁, journal₂, ends, calls_append, calls_of_isReport report₁, List.append_nil,
      together.calls]

namespace Apart

/-- The first evaluation goes on without calls. -/
theorem left (apart : Apart I e₁ e₂) (control : e₁'.control = e₁.control) (inside : I e₁'.host.1)
    (errors : e₁.stats.errors ≤ e₁'.stats.errors)
    (journal : GrammarMachine.calls e₁'.host.2 = GrammarMachine.calls e₁.host.2) :
    Apart I e₁' e₂ where
  inside₁ := inside
  inside₂ := apart.inside₂
  locking := control.trans apart.locking
  free := apart.free
  failed := Nat.lt_of_lt_of_le apart.failed errors
  reported := apart.reported
  calls := journal.trans apart.calls

/-- The second evaluation goes on. -/
theorem right (apart : Apart I e₁ e₂) (control : e₂'.control = e₂.control) (inside : I e₂'.host.1)
    {more : List (Exchange V)} (journal : e₂'.host.2 = e₂.host.2 ++ more) : Apart I e₁ e₂' where
  inside₁ := apart.inside₁
  inside₂ := inside
  locking := apart.locking
  free := control.trans apart.free
  failed := apart.failed
  reported := by
    obtain ⟨exchange, mem, report⟩ := apart.reported
    exact ⟨exchange, by simp [journal, mem], report⟩
  calls := by rw [journal, beforeReport_append apart.reported, apart.calls]

/-- What is not seen from here can change. -/
theorem congr (apart : Apart I e₁ e₂) (control₁ : e₁'.control = e₁.control)
    (host₁ : e₁'.host = e₁.host) (errors : e₁'.stats.errors = e₁.stats.errors)
    (control₂ : e₂'.control = e₂.control) (host₂ : e₂'.host = e₂.host) : Apart I e₁' e₂' := by
  have first := apart.left control₁ (host₁ ▸ apart.inside₁) (Nat.le_of_eq errors.symm)
    (by rw [host₁])
  exact first.right control₂ (host₂ ▸ apart.inside₂) (by rw [host₂, List.append_nil])

theorem report_left (apart : Apart I e₁ e₂) (detached : h.Detached I) (kind : ErrorKind)
    (o : Origin) (m : Message) : Apart I (e₁.report h.journaling kind o m) e₂ := by
  obtain ⟨control, stays, x, report, journal⟩ :=
    report_of_detached detached apart.inside₁ kind o m
  refine apart.left control stays ?_ ?_
  · exact Nat.le_trans (Nat.le_succ _) (Nat.le_of_eq (Stats.errors_count e₁.stats kind).symm)
  · rw [journal, calls_append, calls_of_isReport report, List.append_nil]

theorem report_right (apart : Apart I e₁ e₂) (detached : h.Detached I) (kind : ErrorKind)
    (o : Origin) (m : Message) : Apart I e₁ (e₂.report h.journaling kind o m) := by
  obtain ⟨control, stays, x, _, journal⟩ := report_of_detached detached apart.inside₂ kind o m
  exact apart.right control stays journal

theorem report (apart : Apart I e₁ e₂) (detached : h.Detached I) (kind : ErrorKind) (o : Origin)
    (m₁ m₂ : Message) :
    Apart I (e₁.report h.journaling kind o m₁) (e₂.report h.journaling kind o m₂) :=
  (apart.report_left detached kind o m₁).report_right detached kind o m₂

theorem locked (apart : Apart I e₁ e₂) : e₁.locked = true := by
  simp [Evaluation.locked, apart.locking, apart.failed]

/-- The first evaluation is locked, so that none of its effects is a call. -/
theorem effects_left (apart : Apart I e₁ e₂) (effects : Effects h.journaling e₁ e₁') :
    Apart I e₁' e₂ := by
  induction effects with
  | refl => exact apart
  | tail _ effect ih =>
    cases effect with
    | quiet same =>
      obtain ⟨control, host, _, _, _, stats⟩ := same
      exact ih.congr control host (by rw [stats]; rfl) rfl rfl
    | call free => cases ih.locked.symm.trans free
    | refusal free => cases ih.locked.symm.trans free

theorem effects_right (apart : Apart I e₁ e₂) (detached : h.Detached I)
    (effects : Effects h.journaling e₂ e₂') : Apart I e₁ e₂' := by
  have asked : ∀ {e}, Apart I e₁ e → ∀ call, Apart I e₁ (e.called h.journaling call) := by
    intro e apart call
    obtain ⟨control, stays, journal⟩ := called_of_detached detached apart.inside₂ call
    exact apart.right control stays journal
  induction effects with
  | refl => exact apart
  | tail _ effect ih =>
    cases effect with
    | quiet same =>
      obtain ⟨control, host, _⟩ := same
      exact ih.congr rfl rfl rfl control host
    | call free call => exact asked ih call
    | refusal free call o reason => exact (asked ih call).report_right detached _ _ _

end Apart

theorem twins_locking (detached : h.Detached I) :
    Twins h.journaling h.journaling (Together I (V := V)) (Apart I) where
  same := by
    intro e₁ e₂ together
    refine ⟨together.graph, together.queue, together.stats, ?_⟩
    simp [Evaluation.locked, together.locking, together.free, together.clean]
  work together graph queue actions deferred replays :=
    ⟨rfl, rfl, by rw [together.stats], together.host, together.inside, together.locking,
      together.free, together.clean, together.calls, together.silent⟩
  call := by
    intro e₁ e₂ together _ call
    obtain ⟨same, _⟩ := detached.execute call e₁.control e₁.host.1 together.inside
    obtain ⟨control₁, stays₁, journal₁⟩ := called_of_detached detached together.inside call
    have inside₂ : I e₂.host.1 := together.host ▸ together.inside
    obtain ⟨control₂, _, journal₂⟩ := called_of_detached detached inside₂ call
    have answer : h.execute call e₂.control e₂.host.1 = h.execute call e₁.control e₁.host.1 := by
      rw [together.host, same]
    refine ⟨congrArg (fun answer => answer.1.result) answer, together.graph, together.queue, ?_,
      congrArg Prod.snd answer, stays₁, control₁.trans together.locking,
      control₂.trans together.free, together.clean, ?_, ?_⟩
    · rw [called, called, together.stats]
    · rw [journal₁, journal₂, calls_append, calls_append, together.calls, answer]
      rfl
    · intro exchange mem
      rw [journal₂] at mem
      rcases List.mem_append.1 mem with old | new
      · exact together.silent exchange old
      · rw [List.mem_singleton.1 new]
        rfl
  refuse together o reason := .inr (together.report detached _ _ _ _)
  apart apart first second := (apart.effects_left first).effects_right detached second

end Evaluation

section Parses

variable {σ V : Type} {g : Grammar} {h : Host σ V} {I : σ → Prop}

/-- The two have the same attributes and do the same, or something has been reported. -/
def Config.Cut (I : σ → Prop) : Pairing (σ × List (Exchange V)) V (σ × List (Exchange V)) V :=
  fun A₁ e₁ A₂ e₂ => (A₂ = A₁ ∧ Together I e₁ e₂) ∨ Apart I e₁ e₂

theorem Config.closed_cut (detached : h.Detached I) :
    Config.Closed g h.journaling g h.journaling (Cut I) where
  stopped := by
    rintro A₁ e₁ A₂ e₂ (⟨_, together⟩ | apart)
    · rw [together.locking, together.free]
    · rw [apart.locking, apart.free]
  lexical := by
    rintro A₁ e₁ A₂ e₂ o m (⟨_, together⟩ | apart)
    · exact .inr (together.report detached _ _ _ _)
    · exact .inr (apart.report detached _ _ _ _)
  syntactic := by
    rintro A₁ e₁ A₂ e₂ state t (⟨_, together⟩ | apart)
    · exact .inr (together.report detached _ _ _ _)
    · exact .inr (apart.report detached _ _ _ _)
  drop := by
    rintro A₁ e₁ A₂ e₂ n (⟨rfl, together⟩ | apart)
    · exact .inl ⟨rfl, together⟩
    · exact .inr apart
  shift := by
    rintro A₁ e₁ A₂ e₂ t (⟨rfl, together⟩ | apart)
    · have counted := fun graph => together.update graph
        (fun stats => { stats with shifts := stats.shifts + 1 }) fun _ => rfl
      unfold shifting tokenAttrs
      cases t.text with
      | none => exact .inl ⟨rfl, counted id⟩
      | some text =>
        refine .inl ⟨?_, counted fun graph => (graph.alloc (.text text t.origin.pos t.error)).2⟩
        exact congrArg (fun graph => [graph.size] :: A₂) together.graph
    · unfold shifting tokenAttrs
      cases t.text <;> exact .inr (apart.congr rfl rfl rfl rfl rfl)
  resume := by
    rintro A₁ e₁ A₂ e₂ id n₁ n₂ found₁ found₂ (⟨rfl, together⟩ | apart)
    · cases found₁.symm.trans found₂
      refine .inl ⟨?_, together.update (fun graph => (graph.allocMany .null n₁.attributeCount).2)
        (fun stats => { stats with recoveries := stats.recoveries + 1 }) fun _ => rfl⟩
      exact congrArg (fun graph => (graph.allocMany .null n₁.attributeCount).1 :: A₂) together.graph
    · exact .inr (apart.congr rfl rfl rfl rfl rfl)
  reduce := by
    rintro A₁ e₁ e₁' A₂ e₂ e₂' id r₁ r₂ n₁ n₂ o rule₁ rule₂ found₁ found₂ (⟨rfl, together⟩ | apart)
      ran₁ ran₂
    · cases rule₁.symm.trans rule₂
      cases found₁.symm.trans found₂
      have attrs : (e₂.reducing o n₁).1 = (e₁.reducing o n₁).1 :=
        congrArg (fun graph => (graph.allocMany (.pending ⟨none, [], o⟩) n₁.attributeCount).1)
          together.graph
      have counted : Together I (e₁.reducing o n₁).2 (e₂.reducing o n₁).2 :=
        together.update
          (fun graph => (graph.allocMany (.pending ⟨none, [], o⟩) n₁.attributeCount).2)
          (fun stats => { stats with reductions := stats.reductions + 1 }) fun _ => rfl
      rw [attrs] at ran₂ ⊢
      rcases (twins_locking detached).runRule counted _ _ _ _ _ ran₁ ran₂ with together | apart
      · exact .inl ⟨rfl, together⟩
      · exact .inr apart
    · have counted : Apart I (e₁.reducing o n₁).2 (e₂.reducing o n₂).2 :=
        apart.congr rfl rfl rfl rfl rfl
      have left := counted.effects_left (effects_runRule ran₁)
      exact .inr (left.effects_right detached (effects_runRule ran₂))

/-- All that the host is asked and told in a parse, with its answers. -/
def parseJournal (control : Control) (g : Grammar) (h : Host σ V) (options : Options) (fuel : Nat)
    (source : Source) (host : σ) : Except Fault (List (Exchange V)) := do
  let last ← parseLast control g h.journaling options fuel source (host, [])
  return last.eval.host.2

theorem calls_of_cut {A₁ A₂ : List (List Nat)} {e₁ e₂ : Evaluation (σ × List (Exchange V)) V}
    (cut : Config.Cut I A₁ e₁ A₂ e₂) : calls e₁.host.2 = calls (beforeReport e₂.host.2) := by
  rcases cut with ⟨_, together⟩ | apart
  · rw [beforeReport_of_silent together.silent, together.calls]
  · exact apart.calls

/-- As long as nothing has been reported the outcomes are the same. -/
theorem outcome_of_cut {last₁ last₂ : Config (σ × List (Exchange V)) V}
    (alike : last₁.Alike (Config.Cut I) last₂)
    (silent : ∀ exchange ∈ last₂.eval.host.2, exchange.isReport = false) (accepted : Bool) :
    (Outcome.ofConfig accepted last₁).mapHost Prod.fst =
      (Outcome.ofConfig accepted last₂).mapHost Prod.fst := by
  rcases alike.eval with ⟨attrs, together⟩ | apart
  · have stack := eq_of_bare_of_attrs alike.bare attrs.symm
    simp only [Outcome.ofConfig, Outcome.mapHost, together.graph, together.stats, together.host,
      stack, alike.lexer]
  · obtain ⟨exchange, mem, report⟩ := apart.reported
    cases (silent exchange mem).symm.trans report

theorem sameWords_self (same : ∀ s₁ s₂, I s₁ → I s₂ → h.message s₁ = h.message s₂) :
    SameWords g h I g h I id where
  lexical o m inside₁ inside₂ := by rw [same _ _ inside₁ inside₂]
  syntactic state t inside₁ inside₂ := by
    simp only [Message.syntaxError, same _ _ inside₁ inside₂]

end Parses

section Example

open Samples.Calculator

theorem Samples.Calculator.host_detached :
    host.Detached fun m => m.log.stopOnFirst = false where
  execute call control m going := ⟨fun _ => rfl, Machine.commands_answer call, going⟩
  error report control m going := by
    refine ⟨fun _ => rfl, ?_, going⟩
    simp [host, ErrorLog.add, going]

end Example

end GrammarMachine
