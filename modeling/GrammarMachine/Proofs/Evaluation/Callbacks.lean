import GrammarMachine.Lexer.Basic
import GrammarMachine.Proofs.Evaluation.Records
import GrammarMachine.Proofs.Graph.Snapshots

/-!
What the host gets to see of a parse. A callback is a call or a report together with the state in
which it is made. `Acts` lists what happens between two moments, each time with the callbacks that
are made on the way; what is proved of the dealings with the host is proved of these cases.
-/

namespace GrammarMachine

/-- What the host is asked or told. -/
inductive Contact (V : Type) where
  /-- It is asked for the value of `target`. -/
  | call (target : Nat) (call : Call V)
  | report (kind : ErrorKind) (origin : Origin) (message : Message)

namespace Contact

variable {V : Type}

/-- What a contact is about: calls belong to the semantics. -/
def kind : Contact V → ErrorKind
  | call _ _ => .semantic
  | report kind _ _ => kind

/-- The attribute that is asked for. -/
def target? : Contact V → Option Nat
  | call target _ => some target
  | report _ _ _ => none

def isReport : Contact V → Bool
  | call _ _ => false
  | report _ _ _ => true

end Contact

/-- A state of a parse, also within a step. -/
structure Moment (σ V : Type) where
  lexer : Lexer
  eval : Evaluation σ V

structure Callback (σ V : Type) extends Moment σ V where
  contact : Contact V

/-- A callback as the host sees it, with its answer. -/
inductive Exchange (V : Type) where
  | called (call : Call V) (control : Control) (answer : Answer V)
  | reported (report : Report) (control : Control) (commands : List Command)

def Exchange.commands {V : Type} : Exchange V → List Command
  | called _ _ answer => answer.commands
  | reported _ _ commands => commands

/-- All parameters have a value, and none of them is an error. -/
def Call.Ready {V : Type} (call : Call V) : Prop :=
  ∀ p ∈ call.params, ∃ node, call.graph.resolve p = .ok node ∧ node.isPending = false ∧
    node.isLink = false ∧ node.isError = false

variable {σ V : Type}

/-- The host keeps a list of all that it is asked and told, with its answers. -/
structure Host.Logs (h : Host σ V) (log : σ → List (Exchange V)) : Prop where
  execute : ∀ call control s, log (h.execute call control s).2 =
    log s ++ [.called call control (h.execute call control s).1]
  error : ∀ report control s, log (h.error report control s).2 =
    log s ++ [.reported report control (h.error report control s).1]

/-- The host with a list of all that it is asked and told. -/
def Host.journaling (h : Host σ V) : Host (σ × List (Exchange V)) V where
  execute call control s :=
    let (answer, host) := h.execute call control s.1
    (answer, host, s.2 ++ [.called call control answer])
  error report control s :=
    let (commands, host) := h.error report control s.1
    (commands, host, s.2 ++ [.reported report control commands])
  message s := h.message s.1

theorem Host.logs_journaling (h : Host σ V) : h.journaling.Logs Prod.snd :=
  ⟨fun _ _ _ => rfl, fun _ _ _ => rfl⟩

namespace Callback

def exchange (h : Host σ V) (callback : Callback σ V) : Exchange V :=
  let ⟨⟨_, eval⟩, contact⟩ := callback
  match contact with
  | .call _ call => .called call eval.control (h.execute call eval.control eval.host).1
  | .report kind origin message =>
    let report := ⟨kind, origin, h.message eval.host message.key.name message.args⟩
    .reported report eval.control (h.error report eval.control eval.host).1

/-- The host asks to stop. -/
def Stops (h : Host σ V) (callback : Callback σ V) : Prop :=
  .stop ∈ (callback.exchange h).commands

end Callback

theorem Stats.errors_count (s : Stats) (kind : ErrorKind) :
    (s.count kind).errors = s.errors + 1 := by
  unfold errors
  cases kind <;> simp only [count] <;> omega

section Readiness

variable {graph : Graph V} {ps : List Nat} {flags : List Bool}

theorem Graph.isError_of_mapM (errors : ps.mapM graph.isError = .ok flags)
    (clean : flags.contains true = false) : ∀ p ∈ ps, graph.isError p = .ok false := by
  induction ps generalizing flags with
  | nil => simp
  | cons p rest ih =>
    obtain ⟨flag, others, first, later, rfl⟩ := mapM_cons_eq_ok_iff.1 errors
    rw [List.contains_cons, Bool.or_eq_false_iff] at clean
    have fine : flag = false := by simpa using clean.1
    exact List.forall_mem_cons.2 ⟨fine ▸ first, ih later clean.2⟩

theorem Call.ready_of_known {function : UInt32} {pos : Nat} (known : ∀ p ∈ ps, graph.Known p)
    (errors : ps.mapM graph.isError = .ok flags) (clean : flags.contains true = false) :
    Call.Ready ⟨function, pos, ps, graph⟩ := by
  intro p mem
  obtain ⟨rep, node, walk, found, settled⟩ := known p mem
  obtain ⟨_, same, plain⟩ := Graph.plain_of_follow walk
  cases found.symm.trans same
  have fine := (Graph.isError_of_known walk found).symm.trans
    (Graph.isError_of_mapM errors clean p mem)
  refine ⟨node, ?_, settled, plain, Except.ok.inj fine⟩
  rw [Graph.resolve, walk]
  exact Graph.node_eq_ok_iff.2 found

end Readiness

namespace Graph

variable {graph graph' : Graph V} {node : Node V} {target : Nat}

/-- The same nodes hold what the host computed. -/
def SameUsers (graph graph' : Graph V) : Prop :=
  ∀ (n : Nat) (user : Node V), user.isUser = true →
    (graph'.nodes[n]? = some user ↔ graph.nodes[n]? = some user)

theorem SameUsers.refl (graph : Graph V) : graph.SameUsers graph := fun _ _ _ => .rfl

/-- A node that was pending, and is not one that the host computed. -/
theorem SameUsers.of_ne {state : Pending} (here : graph.nodes[target]? = some (.pending state))
    (there : graph'.nodes[target]? = some node) (other : node.isUser = false)
    (rest : ∀ n user, target ≠ n → user.isUser = true →
      (graph'.nodes[n]? = some user ↔ graph.nodes[n]? = some user)) :
    graph.SameUsers graph' := by
  intro n user computed
  by_cases same : target = n
  · subst same
    rw [here, there]
    refine iff_of_false ?_ ?_
    · rintro ⟨⟩
      cases other.symm.trans computed
    · rintro ⟨⟩
      cases computed
  · exact rest n user same computed

theorem sameUsers_put {state : Pending} (here : graph.nodes[target]? = some (.pending state))
    (other : node.isUser = false) : graph.SameUsers (graph.put target node) := by
  refine .of_ne here (getElem?_put_self (lt_size here)) other fun n user same _ => ?_
  rw [getElem?_put_ne same]

theorem sameUsers_alloc (graph : Graph V) (other : node.isUser = false) :
    graph.SameUsers (graph.alloc node).2 := by
  intro n user computed
  rw [getElem?_alloc]
  split
  · next last =>
    refine iff_of_false ?_ fun there => Nat.ne_of_lt (lt_size there) last
    rintro ⟨⟩
    cases other.symm.trans computed
  · exact .rfl

end Graph

namespace Evaluation

open Graph

/-- What happens between two moments of a parse, with the callbacks that are made. -/
inductive Acts (h : Host σ V) (m : Moment σ V) : List (Callback σ V) → Moment σ V → Prop
  | refl : Acts h m [] m
  /-- Nothing that is the host's business. -/
  | quiet {made : List (Callback σ V)} {m' : Moment σ V} {e : Evaluation σ V}
      (acts : Acts h m made m') (quiet : m'.eval.Quiet e)
      (users : m'.eval.graph.SameUsers e.graph) : Acts h m made ⟨m'.lexer, e⟩
  /-- The host computes an attribute. -/
  | answer {made : List (Callback σ V)} {m' : Moment σ V} {target : Nat} {state : Pending}
      {call : Call V} {produced : Produced V} {queue : List Nat} (acts : Acts h m made m')
      (pending : m'.eval.graph.nodes[target]? = some (.pending state))
      (graph : call.graph = m'.eval.graph) (ready : call.Ready) (free : m'.eval.locked = false)
      (answer : (h.execute call m'.eval.control m'.eval.host).1.result = .ok produced) :
      Acts h m (made ++ [⟨m', .call target call⟩])
        ⟨m'.lexer, { m'.eval.called h call with
          graph := m'.eval.graph.put target
            (.user call.function (some produced.value) (produced.pos.getD call.pos) false)
          queue }⟩
  /-- The host refuses, and is told so. -/
  | refuse {made : List (Callback σ V)} {m' : Moment σ V} {target : Nat} {state : Pending}
      {call : Call V} {o : Origin} {reason : String} {queue : List Nat}
      (acts : Acts h m made m')
      (pending : m'.eval.graph.nodes[target]? = some (.pending state))
      (graph : call.graph = m'.eval.graph) (ready : call.Ready) (free : m'.eval.locked = false)
      (answer : (h.execute call m'.eval.control m'.eval.host).1.result = .error reason) :
      Acts h m
        (made ++ [⟨m', .call target call⟩, ⟨⟨m'.lexer, m'.eval.called h call⟩,
          .report .semantic o ⟨.failed, [reason]⟩⟩])
        ⟨m'.lexer, { (m'.eval.called h call).report h .semantic o ⟨.failed, [reason]⟩ with
          graph := m'.eval.graph.put target (.user call.function none call.pos true), queue }⟩
  /-- An error in the text is reported; a parse that is to stop looks for no syntax errors. -/
  | report {made : List (Callback σ V)} {m' : Moment σ V} {kind : ErrorKind} {o : Origin}
      {message : Message} (acts : Acts h m made m') (textual : kind ≠ .semantic)
      (going : kind = .syntactic → m'.eval.control.stopped = false) :
      Acts h m (made ++ [⟨m', .report kind o message⟩])
        ⟨m'.lexer, m'.eval.report h kind o message⟩
  /-- The parse goes on with the text, unless it is to stop. -/
  | work {made : List (Callback σ V)} {m' : Moment σ V} (acts : Acts h m made m')
      (going : m'.eval.control.stopped = false) (lexer : Lexer)
      (shifts reductions recoveries : Nat) :
      Acts h m made
        ⟨lexer, { m'.eval with stats := { m'.eval.stats with shifts, reductions, recoveries } }⟩

variable {g : Grammar} {h : Host σ V} {l : Lexer} {m m' m'' : Moment σ V}
  {made more : List (Callback σ V)} {e e' : Evaluation σ V} {target : Nat}
  {events : List (Event σ V)}

theorem Acts.trans (first : Acts h m made m') (second : Acts h m' more m'') :
    Acts h m (made ++ more) m'' := by
  induction second with
  | refl => rwa [List.append_nil]
  | quiet _ quiet users ih => exact ih.quiet quiet users
  | answer _ pending graph ready free answer ih =>
    rw [← List.append_assoc]
    exact ih.answer pending graph ready free answer
  | refuse _ pending graph ready free answer ih =>
    rw [← List.append_assoc]
    exact ih.refuse pending graph ready free answer
  | report _ textual going ih =>
    rw [← List.append_assoc]
    exact ih.report textual going
  | work _ going lexer shifts reductions recoveries ih =>
    exact ih.work going lexer shifts reductions recoveries

/-- A host that keeps a list has all callbacks on it. -/
theorem Acts.logs (acts : Acts h m made m') {log : σ → List (Exchange V)} (logs : h.Logs log) :
    log m'.eval.host = log m.eval.host ++ made.map (Callback.exchange h) := by
  induction acts with
  | refl => rw [List.map_nil, List.append_nil]
  | quiet _ quiet _ ih => rwa [quiet.host]
  | answer _ _ _ _ _ _ ih =>
    rw [List.map_append, ← List.append_assoc, ← ih]
    exact logs.execute _ _ _
  | @refuse _ m' _ _ call o reason _ _ _ _ _ _ _ ih =>
    rw [List.map_append, ← List.append_assoc, ← ih]
    refine (logs.error _ _ _).trans ?_
    rw [called, logs.execute, List.append_assoc]
    rfl
  | report _ _ _ ih =>
    rw [List.map_append, ← List.append_assoc, ← ih]
    exact logs.error _ _ _
  | work _ _ _ _ _ _ ih => exact ih

theorem Quiet.acts (quiet : e.Quiet e') (users : e.graph.SameUsers e'.graph) :
    Acts h ⟨l, e⟩ [] ⟨l, e'⟩ := Acts.refl.quiet quiet users

/-- The host is asked for `target`; if it refuses, it is told so. -/
def asking (h : Host σ V) (m : Moment σ V) (target : Nat) (call : Call V) (o : Origin) :
    List (Callback σ V) :=
  ⟨m, .call target call⟩ ::
    match (h.execute call m.eval.control m.eval.host).1.result with
    | .ok _ => []
    | .error reason =>
      [⟨⟨m.lexer, m.eval.called h call⟩, .report .semantic o ⟨.failed, [reason]⟩⟩]

/-- The callbacks of an event: an attempt that counts a call has made it. -/
def Event.callbacks (g : Grammar) (h : Host σ V) (lexer : Lexer) :
    Event σ V → List (Callback σ V)
  | .attempted target before after =>
    if after.stats.hardCalls = before.stats.hardCalls then []
    else
      match before.graph.nodes[target]? with
      | some (.pending ⟨some b, _, o⟩) =>
        match g.action? b with
        | some a => asking h ⟨lexer, before⟩ target ⟨a.function, o.pos, b.params, before.graph⟩ o
        | none => []
      | _ => []
  | _ => []

theorem Event.callbacks_of_silent (silent : e'.stats.hardCalls = e.stats.hardCalls) :
    (Event.attempted target e e').callbacks g h l = [] := if_pos silent

theorem Event.callbacks_of_call {a : SemanticAction} {b : Binding} {w : List Nat} {o : Origin}
    (counted : e'.stats.hardCalls = e.stats.hardCalls + 1)
    (here : e.graph.nodes[target]? = some (.pending ⟨some b, w, o⟩))
    (action : g.action? b = some a) :
    (Event.attempted target e e').callbacks g h l =
      asking h ⟨l, e⟩ target ⟨a.function, o.pos, b.params, e.graph⟩ o := by
  have other : e'.stats.hardCalls ≠ e.stats.hardCalls := by omega
  simp only [Event.callbacks, if_neg other, here, action]

theorem kind_of_asking {call : Call V} {o : Origin} {callback : Callback σ V}
    (mem : callback ∈ asking h m target call o) : callback.contact.kind = .semantic := by
  unfold asking at mem
  rcases List.mem_cons.1 mem with rfl | later
  · rfl
  · split at later
    · cases later
    · rw [List.mem_singleton.1 later]
      rfl

/-- The callbacks of an event are all about semantics. -/
theorem Event.kind_of_mem {event : Event σ V} {callback : Callback σ V}
    (mem : callback ∈ event.callbacks g h l) : callback.contact.kind = .semantic := by
  unfold Event.callbacks at mem
  split at mem
  · split at mem
    · cases mem
    · split at mem
      · split at mem
        · exact kind_of_asking mem
        · cases mem
      · cases mem
  · cases mem

/-- An attempt after which the attribute is not one that the host computed. -/
theorem Attempted.acts_of_silent (attempted : Attempted g h target e e') {state : Pending}
    (node : Node V) (here : e.graph.nodes[target]? = some (.pending state))
    (there : e'.graph.nodes[target]? = some node) (other : node.isUser = false)
    (quiet : e.Quiet e') (silent : e'.stats.hardCalls = e.stats.hardCalls) :
    Acts h ⟨l, e⟩ ((Event.attempted target e e').callbacks g h l) ⟨l, e'⟩ := by
  rw [Event.callbacks_of_silent silent]
  exact quiet.acts (.of_ne here there other fun _ _ different => attempted.user_iff different)

theorem Attempted.acts (attempted : Attempted g h target e e') :
    Acts h ⟨l, e⟩ ((Event.attempted target e e').callbacks g h l) ⟨l, e'⟩ := by
  have whole := attempted
  cases attempted with
  | idle =>
    rw [Event.callbacks_of_silent rfl]
    exact .refl
  | self =>
    rw [Event.callbacks_of_silent rfl]
    exact .refl
  | @join b w o a p source state here _ _ _ _ different there =>
    refine whole.acts_of_silent (.link source) here ?_ rfl ⟨rfl, rfl, _, _, _, rfl⟩ rfl
    exact (getElem?_put_ne (Ne.symm different)).trans (getElem?_put_self (lt_size here))
  | link here =>
    exact whole.acts_of_silent _ here (getElem?_put_self (lt_size here)) rfl
      ⟨rfl, rfl, _, _, _, rfl⟩ rfl
  | @park b w o a source state here _ _ _ there =>
    obtain ⟨w', still⟩ : PendingAs (if state.waiters.contains target then e.graph else
        e.graph.put source (.pending { state with waiters := state.waiters ++ [target] })) target
        (some b) o := by
      split
      · exact ⟨w, here⟩
      · exact (pendingAs_put_waiters there).2 ⟨w, here⟩
    exact whole.acts_of_silent _ here still rfl ⟨rfl, rfl, _, _, _, rfl⟩ rfl
  | @settle e₁ b w o a node here defines _ _ known computed =>
    have there : (e.graph.put target node).nodes[target]? = some node :=
      getElem?_put_self (lt_size here)
    cases computed with
    | term => exact whole.acts_of_silent _ here there rfl ⟨rfl, rfl, _, _, _, rfl⟩ rfl
    | null => exact whole.acts_of_silent _ here there rfl ⟨rfl, rfl, _, _, _, rfl⟩ rfl
    | value errors hard clean answer =>
      rw [Bool.or_eq_false_iff] at clean
      have ready : Call.Ready ⟨a.function, o.pos, b.params, e.graph⟩ :=
        Call.ready_of_known known errors clean.1
      rw [Event.callbacks_of_call rfl here defines.action, asking, answer]
      exact Acts.refl.answer here rfl ready clean.2 answer
    | refusal errors hard clean answer =>
      rw [Bool.or_eq_false_iff] at clean
      have ready : Call.Ready ⟨a.function, o.pos, b.params, e.graph⟩ :=
        Call.ready_of_known known errors clean.1
      rw [Event.callbacks_of_call rfl here defines.action, asking, answer]
      exact Acts.refl.refuse here rfl ready clean.2 answer

/-- What a history tells of makes the callbacks that it tells of. -/
theorem Deeds.acts (deeds : Deeds g h e events e') (l : Lexer) :
    Acts h ⟨l, e⟩ (events.flatMap (Event.callbacks g h l)) ⟨l, e'⟩ := by
  induction deeds with
  | refl => exact .refl
  | @step e₁ e₂ _ _ _ move quiet ih =>
    rw [List.flatMap_append]
    refine ih.trans ?_
    cases move with
    | note same =>
      refine (quiet rfl).acts ?_
      rw [same.graph]
      exact .refl _
    | leaf leaf =>
      refine (quiet rfl).acts (sameUsers_alloc _ ?_)
      exact Node.isUser_of_isLeaf leaf
    | declare => exact Quiet.acts ⟨rfl, rfl, _, _, _, rfl⟩ (sameUsers_alloc _ rfl)
    | @define _ target b _ w o here _ _ attempted =>
      have defined : e₁.Quiet (e₁.defined target b w o) := ⟨rfl, rfl, _, _, _, rfl⟩
      have whole := (defined.acts (sameUsers_put here rfl)).trans (attempted.acts (l := l))
      rwa [List.flatMap_cons, List.flatMap_singleton]
    | @replay _ id rest _ attempted =>
      have taken : e₁.Quiet (e₁.taken rest) := ⟨rfl, rfl, _, _, _, rfl⟩
      have whole := (taken.acts (.refl _)).trans (attempted.acts (l := l))
      rwa [List.flatMap_singleton]

end Evaluation

end GrammarMachine
