import GrammarMachine.Proofs.Evaluation.Twins
import GrammarMachine.Proofs.Parse.Lockstep

/-!
The reports of a parse. A host that keeps a list of the errors it is told answers like the host it
keeps the list for, so that a parse with it is the parse without it and a list of reports: whatever
a host does, what it keeps for itself alone does not show.
-/

namespace GrammarMachine

open Evaluation Config

/-- To the state `f s`, `h₂` does what `h₁` does to the state `s`, and answers the same. -/
structure Host.Projects {σ₁ σ₂ V : Type} (f : σ₁ → σ₂) (h₁ : Host σ₁ V) (h₂ : Host σ₂ V) :
    Prop where
  execute : ∀ call control s, h₂.execute call control (f s) =
    ((h₁.execute call control s).1, f (h₁.execute call control s).2)
  error : ∀ report control s, h₂.error report control (f s) =
    ((h₁.error report control s).1, f (h₁.error report control s).2)
  message : ∀ s, h₂.message (f s) = h₁.message s

/-- The host with a list of the errors it was told, first one first. -/
def Host.recording {σ V : Type} (h : Host σ V) : Host (σ × List Report) V where
  execute call control s :=
    let (answer, host) := h.execute call control s.1
    (answer, host, s.2)
  error report control s :=
    let (commands, host) := h.error report control s.1
    (commands, host, s.2 ++ [report])
  message s := h.message s.1

theorem Host.projects_recording {σ V : Type} (h : Host σ V) : h.recording.Projects Prod.fst h :=
  ⟨fun _ _ _ => rfl, fun _ _ _ => rfl, fun _ => rfl⟩

variable {σ₁ σ₂ V : Type} {g : Grammar} {f : σ₁ → σ₂} {h₁ : Host σ₁ V} {h₂ : Host σ₂ V}

namespace Evaluation

/-- The evaluation with another view of the host. -/
def mapHost (f : σ₁ → σ₂) (e : Evaluation σ₁ V) : Evaluation σ₂ V :=
  ⟨e.graph, e.queue, e.control, f e.host, e.stats⟩

variable (e : Evaluation σ₁ V)

theorem report_mapHost (projects : h₁.Projects f h₂) (kind : ErrorKind) (o : Origin) (m : Message) :
    (e.mapHost f).report h₂ kind o m = (e.report h₁ kind o m).mapHost f := by
  simp only [report, mapHost, projects.message, projects.error]

theorem called_mapHost (projects : h₁.Projects f h₂) (call : Call V) :
    (e.mapHost f).called h₂ call = (e.called h₁ call).mapHost f := by
  simp only [called, mapHost, projects.execute]

/-- Evaluations that differ in the view of the host alone are never told apart. -/
theorem twins_projected (projects : h₁.Projects f h₂) :
    Twins h₁ h₂ (fun e₁ e₂ => e₂ = e₁.mapHost f) fun _ _ => False where
  same := by
    rintro e₁ _ rfl
    exact ⟨rfl, rfl, rfl, rfl⟩
  work := by
    rintro e₁ _ rfl graph queue actions deferred replays
    rfl
  call := by
    rintro e₁ _ rfl free call
    refine ⟨?_, called_mapHost e₁ projects call⟩
    simp only [mapHost, projects.execute]
  refuse := by
    rintro e₁ _ rfl o reason
    exact .inl (report_mapHost e₁ projects _ _ _)
  apart := fun impossible _ _ => impossible

theorem projected_runRule (projects : h₁.Projects f h₂) (rule : UInt32) (lhs : List Nat)
    (rhs : List (List Nat)) :
    Matches (fun e₁ e₂ => e₂ = e₁.mapHost f) (runRule g h₁ rule lhs rhs e)
      (runRule g h₂ rule lhs rhs (e.mapHost f)) := fun e₁ e₂ ran₁ ran₂ =>
  ((twins_projected projects).runRule rfl rule lhs rhs e₁ e₂ ran₁ ran₂).resolve_right id

end Evaluation

/-- A stack is known by its bare frames and its attributes. -/
theorem eq_of_bare_of_attrs {stack₁ stack₂ : List Frame}
    (bare : stack₁.map Frame.bare = stack₂.map Frame.bare)
    (attrs : stack₁.map Frame.attrs = stack₂.map Frame.attrs) : stack₁ = stack₂ := by
  induction stack₁ generalizing stack₂ with
  | nil => rw [List.map_eq_nil_iff.1 bare.symm]
  | cons top₁ rest₁ ih =>
    obtain ⟨top₂, rest₂, rfl, top, rest⟩ := List.map_eq_cons_iff.1 bare.symm
    obtain ⟨state₁, attrs₁, origin₁⟩ := top₁
    obtain ⟨state₂, attrs₂, origin₂⟩ := top₂
    simp only [Frame.bare, Prod.mk.injEq, List.map_cons, List.cons.injEq] at top attrs
    rw [top.1, top.2, attrs.1, ih rest.symm attrs.2]

/-- The state of a parse with another view of the host. -/
def Config.mapHost (f : σ₁ → σ₂) (c : Config σ₁ V) : Config σ₂ V :=
  ⟨c.lexer, c.eval.mapHost f, c.stack, c.recoveredAt, c.lookahead⟩

/-- The same attributes, and an evaluation with another view of the host. -/
def Config.Projected (f : σ₁ → σ₂) : Pairing σ₁ V σ₂ V :=
  fun A₁ e₁ A₂ e₂ => A₂ = A₁ ∧ e₂ = e₁.mapHost f

theorem Config.closed_projected (projects : h₁.Projects f h₂) :
    Config.Closed g h₁ g h₂ (Projected f) where
  stopped := by
    rintro A₁ e₁ _ _ ⟨rfl, rfl⟩
    rfl
  lexical := by
    rintro A₁ e₁ _ _ o m ⟨rfl, rfl⟩
    exact ⟨rfl, report_mapHost e₁ projects _ _ _⟩
  syntactic := by
    rintro A₁ e₁ _ _ state t ⟨rfl, rfl⟩
    refine ⟨rfl, ?_⟩
    rw [report_mapHost e₁ projects]
    simp only [Message.syntaxError, Evaluation.mapHost, projects.message]
  drop := by
    rintro A₁ e₁ _ _ n ⟨rfl, rfl⟩
    exact ⟨rfl, rfl⟩
  shift := by
    rintro A₁ e₁ _ _ t ⟨rfl, rfl⟩
    unfold shifting tokenAttrs
    cases t.text <;> exact ⟨rfl, rfl⟩
  resume := by
    rintro A₁ e₁ _ _ id n₁ n₂ found₁ found₂ ⟨rfl, rfl⟩
    cases found₁.symm.trans found₂
    exact ⟨rfl, rfl⟩
  reduce := by
    rintro A₁ e₁ e₁' _ _ e₂' id r₁ r₂ n₁ n₂ o rule₁ rule₂ found₁ found₂ ⟨rfl, rfl⟩ ran₁ ran₂
    cases rule₁.symm.trans rule₂
    cases found₁.symm.trans found₂
    exact ⟨rfl, projected_runRule _ projects _ _ _ _ _ ran₁ ran₂⟩

/-- The outcome of a parse with another view of the host. -/
def Outcome.mapHost (f : σ₁ → σ₂) (o : Outcome σ₁ V) : Outcome σ₂ V :=
  ⟨o.ok, o.accepted, o.root, o.graph, o.stats, f o.host⟩

/-- A parse with another view of the host is the same parse. -/
theorem parse_projected (sound : g.Sound) (projects : h₁.Projects f h₂) (control : Control)
    (options : Options) (fuel : Nat) (source : Source) (host : σ₁) :
    parseTrace control g h₂ options fuel source (f host) =
        parseTrace control g h₁ options fuel source host ∧
      parseUnder control g h₂ options fuel source (f host) =
        (parseUnder control g h₁ options fuel source host).map
          (Option.map (Outcome.mapHost f)) := by
  have start : Config.Projected f [[]] (.initial control host : Evaluation σ₁ V) [[]]
      (.initial control (f host)) := ⟨rfl, rfl⟩
  obtain ⟨trace, last₁, last₂, trace₁, trace₂, _, _, alike, ends⟩ :=
    parse_alike (Config.closed_projected projects) rfl (Eq.refl options.stopOnError) sound sound
      start source fuel
  have same : last₂ = last₁.mapHost f := by
    obtain ⟨lexer, lookahead, recoveredAt, bare, attrs, eval⟩ := alike
    obtain ⟨l₂, e₂, stack₂, r₂, t₂⟩ := last₂
    dsimp only at lexer lookahead recoveredAt bare attrs eval
    rw [Config.mapHost, eval, lexer, lookahead, recoveredAt, eq_of_bare_of_attrs bare attrs.symm]
  refine ⟨trace₂.trans trace₁.symm, ?_⟩
  rcases ends with ⟨none₁, none₂⟩ | ⟨accepted, some₁, some₂⟩
  · rw [none₁, none₂]
    rfl
  · rw [some₁, some₂, same]
    rfl

/-- The reports of a parse, first one first. -/
def parseReports {σ : Type} (control : Control) (g : Grammar) (h : Host σ V) (options : Options)
    (fuel : Nat) (source : Source) (host : σ) : Except Fault (List Report) := do
  let last ← parseLast control g h.recording options fuel source (host, [])
  return last.eval.host.2

section Ending

variable {σ : Type} {h : Host σ V} {options : Options} {control : Control} {fuel fuel' : Nat}
  {source : Source} {host : σ} {o : Outcome σ V}

/-- A parse that has ended takes no more steps. -/
theorem Config.run_mono {c : Config σ V} (ended : c.run g h options fuel = .ok (some o))
    (more : fuel ≤ fuel') :
    c.run g h options fuel' = .ok (some o) ∧
      c.last g h options fuel' = c.last g h options fuel := by
  induction fuel generalizing c fuel' with
  | zero => cases ended
  | succ fuel ih =>
    obtain ⟨fuel', rfl⟩ := Nat.exists_eq_add_one_of_ne_zero (Nat.ne_zero_of_lt more)
    unfold run at ended ⊢
    unfold last
    obtain ⟨p, result, rest⟩ := bind_eq_ok_iff.1 ended
    rw [result]
    cases p with
    | more next => exact ih rest (Nat.le_of_succ_le_succ more)
    | done accepted last => exact ⟨rest, rfl⟩

theorem parseUnder_mono (ended : parseUnder control g h options fuel source host = .ok (some o))
    (more : fuel ≤ fuel') :
    parseUnder control g h options fuel' source host = .ok (some o) ∧
      parseLast control g h options fuel' source host =
        parseLast control g h options fuel source host := by
  obtain ⟨c, begun, ended⟩ := bind_eq_ok_iff.1 ended
  obtain ⟨later, last⟩ := Config.run_mono ended more
  rw [parseUnder, parseLast, parseLast, begun]
  exact ⟨later, congrArg Except.ok last⟩

/-- A parse that ends does so with a list of its reports too. -/
theorem exists_recorded (sound : g.Sound)
    (ended : parseUnder control g h options fuel source host = .ok (some o)) :
    ∃ o', parseUnder control g h.recording options fuel source (host, []) = .ok (some o') ∧
      o'.mapHost Prod.fst = o := by
  have plain :=
    (parse_projected sound h.projects_recording control options fuel source (host, [])).2
  rw [ended] at plain
  cases recorded : parseUnder control g h.recording options fuel source (host, []) with
  | error fault =>
    rw [recorded] at plain
    cases plain
  | ok result =>
    rw [recorded] at plain
    cases result with
    | none => cases plain
    | some o' => exact ⟨o', rfl, (Option.some.inj (Except.ok.inj plain)).symm⟩

theorem parseReports_mono (sound : g.Sound)
    (ended : parseUnder control g h options fuel source host = .ok (some o))
    (more : fuel ≤ fuel') :
    parseReports control g h options fuel' source host =
      parseReports control g h options fuel source host := by
  obtain ⟨o', recorded, _⟩ := exists_recorded sound ended
  rw [parseReports, parseReports, (parseUnder_mono recorded more).2]

end Ending

end GrammarMachine
