import GrammarMachine.Grammar.Lookup
import GrammarMachine.Graph.Waiting
import GrammarMachine.Host

/-!
Attribute evaluation. Each action of a reduced rule is bound to its target and attempted at once; if
a parameter is still pending, the target waits for it and is attempted again when it is known.
Copies never wait: the target becomes an alias, and whoever waited for it waits for the source.
-/

namespace GrammarMachine

/-- Counts kept during a parse. -/
structure Stats where
  tokens : Nat
  shifts : Nat
  reductions : Nat
  actions : Nat
  hardCalls : Nat
  /-- Actions that had to wait for a parameter. -/
  deferred : Nat
  /-- Actions attempted again. -/
  replays : Nat
  recoveries : Nat
  lexicalErrors : Nat
  syntaxErrors : Nat
  semanticErrors : Nat
deriving DecidableEq, Repr

namespace Stats

def zero : Stats := ⟨0, 0, 0, 0, 0, 0, 0, 0, 0, 0, 0⟩

def errors (s : Stats) : Nat := s.lexicalErrors + s.syntaxErrors + s.semanticErrors

def count (s : Stats) : ErrorKind → Stats
  | .lexical => { s with lexicalErrors := s.lexicalErrors + 1 }
  | .syntactic => { s with syntaxErrors := s.syntaxErrors + 1 }
  | .semantic => { s with semanticErrors := s.semanticErrors + 1 }

end Stats

/-- The part of a parse that semantic actions work on, for a host with state `σ`. -/
structure Evaluation (σ V : Type) where
  graph : Graph V
  /-- Attributes to attempt again, first one first. -/
  queue : List Nat
  control : Control
  host : σ
  stats : Stats

namespace Evaluation

variable {σ V : Type}

/-- Functions are called no more: an error has been seen and the host asked for it. -/
def locked (e : Evaluation σ V) : Bool :=
  e.control.locked && 0 < e.stats.errors

/-- Counts an error and delivers it. -/
def report (h : Host σ V) (kind : ErrorKind) (origin : Origin) (message : Message) :
    Evaluation σ V → Evaluation σ V
  | ⟨graph, queue, control, host, stats⟩ =>
    let text := h.message host message.key.name message.args
    let (commands, host) := h.error ⟨kind, origin, text⟩ control host
    ⟨graph, queue, control.obeyAll commands, host, stats.count kind⟩

/-- Adds a node. -/
def alloc (node : Node V) : Evaluation σ V → Nat × Evaluation σ V
  | ⟨graph, queue, control, host, stats⟩ =>
    let (id, graph) := graph.alloc node
    (id, ⟨graph, queue, control, host, stats⟩)

/-- Adds `n` copies of a node. -/
def allocMany (node : Node V) (n : Nat) : Evaluation σ V → List Nat × Evaluation σ V
  | ⟨graph, queue, control, host, stats⟩ =>
    let (ids, graph) := graph.allocMany node n
    (ids, ⟨graph, queue, control, host, stats⟩)

/-- The attribute that a slot names. One that does not exist is an error, a node of its own. -/
def slot (lhs : List Nat) (rhs : List (List Nat)) (s : Slot) (e : Evaluation σ V) :
    Nat × Evaluation σ V :=
  let attrs := if s.depth == 0 then lhs else (rhs[s.depth.toNat - 1]?).getD []
  match attrs[s.index.toNat]? with
  | some id => (id, e)
  | none => e.alloc .null

/-- The attributes that some slots name. -/
def slots (lhs : List Nat) (rhs : List (List Nat)) :
    List Slot → Evaluation σ V → List Nat × Evaluation σ V
  | [], e => ([], e)
  | s :: rest, e =>
    let (id, e) := e.slot lhs rhs s
    let (ids, e) := slots lhs rhs rest e
    (id :: ids, e)

/-- Settles a pending attribute; those who waited for it are attempted again. -/
def settle (target : Nat) (node : Node V) :
    Evaluation σ V → Except Fault (Evaluation σ V)
  | ⟨graph, queue, control, host, stats⟩ => do
    let (waiters, graph) ← graph.define target node
    return ⟨graph, queue ++ waiters, control, host, stats⟩

/-- Makes `target` an alias of what its parameter stands for, unless that is `target` itself. -/
def copy (target : Nat) (params : List Nat) :
    Evaluation σ V → Except Fault (Evaluation σ V)
  | ⟨graph, queue, control, host, stats⟩ => do
    match params with
    | [] => .error .parameter
    | param :: _ =>
      let source ← graph.representative param
      if source = target then return ⟨graph, queue, control, host, stats⟩
      let (waiters, graph) ← graph.define target (.link source)
      let (waiters, graph) ← graph.handOver source waiters
      return ⟨graph, queue ++ waiters, control, host, stats⟩

/-- Lets `target` wait for `source`. -/
def park (target source : Nat) :
    Evaluation σ V → Except Fault (Evaluation σ V)
  | ⟨graph, queue, control, host, stats⟩ => do
    let graph ← graph.await target source
    return ⟨graph, queue, control, host, { stats with deferred := stats.deferred + 1 }⟩

/-- Calls the host for the value of `target`. -/
def call (h : Host σ V) (target : Nat) (function : UInt32) (params : List Nat) (origin : Origin) :
    Evaluation σ V → Except Fault (Evaluation σ V)
  | ⟨graph, queue, control, host, stats⟩ =>
    let stats := { stats with hardCalls := stats.hardCalls + 1 }
    let (answer, host) := h.execute ⟨function, origin.pos, params, graph⟩ control host
    let control := control.obeyAll answer.commands
    let e : Evaluation σ V := ⟨graph, queue, control, host, stats⟩
    match answer.result with
    | .ok produced =>
      e.settle target (.user function (some produced.value) (produced.pos.getD origin.pos) false)
    | .error reason =>
      (e.report h .semantic origin ⟨.failed, [reason]⟩).settle target
        (.user function none origin.pos true)

/-- Computes `target` from parameters that are all known. -/
def compute (h : Host σ V) (target : Nat) (action : SemanticAction) (params : List Nat)
    (origin : Origin) (e : Evaluation σ V) : Except Fault (Evaluation σ V) := do
  let error ← e.graph.anyError params
  if action.soft then e.settle target (.term action.function params origin.pos error)
  else if error || e.locked then e.settle target .null
  else e.call h target action.function params origin

/-- Tries to settle `target`, if it is bound and still pending. -/
def attempt (g : Grammar) (h : Host σ V) (target : Nat) (e : Evaluation σ V) :
    Except Fault (Evaluation σ V) := do
  match ← e.graph.node target with
  | .pending ⟨some binding, _, origin⟩ =>
    let rule ← g.rule binding.rule
    let action ← fetch rule.actions binding.action (.ruleAction binding.rule binding.action)
    if action.isCopy then e.copy target binding.params
    else
      match ← e.graph.firstPending? binding.params with
      | some source => e.park target source
      | none => e.compute h target action binding.params origin
  | _ => return e

/-- Binds one action to its target and attempts it. A target that has a definition or a value
already keeps it. -/
def perform (g : Grammar) (h : Host σ V) (rule : UInt32) (lhs : List Nat) (rhs : List (List Nat))
    (index : Nat) (action : SemanticAction) (e : Evaluation σ V) :
    Except Fault (Evaluation σ V) := do
  let (target, e) := e.slot lhs rhs action.target
  let (params, ⟨graph, queue, control, host, stats⟩) := e.slots lhs rhs action.params
  let stats := { stats with actions := stats.actions + 1 }
  let (bound, graph) ← graph.bind target ⟨rule, index, params⟩
  let e : Evaluation σ V := ⟨graph, queue, control, host, stats⟩
  if bound then e.attempt g h target else return e

/-- Performs actions in order, numbered from `index`. -/
def performAll (g : Grammar) (h : Host σ V) (rule : UInt32) (lhs : List Nat)
    (rhs : List (List Nat)) :
    Nat → List SemanticAction → Evaluation σ V → Except Fault (Evaluation σ V)
  | _, [], e => .ok e
  | index, action :: rest, e => do
    performAll g h rule lhs rhs (index + 1) rest (← e.perform g h rule lhs rhs index action)

/-- Works off the queue with at most `n` attempts. -/
def drainFrom (g : Grammar) (h : Host σ V) :
    Nat → Evaluation σ V → Except Fault (Evaluation σ V)
  | n, ⟨graph, queue, control, host, stats⟩ =>
    match queue with
    | [] => .ok ⟨graph, [], control, host, stats⟩
    | id :: queue =>
      match n with
      | 0 => .error .exhausted
      | n + 1 => do
        let stats := { stats with replays := stats.replays + 1 }
        drainFrom g h n (← attempt g h id ⟨graph, queue, control, host, stats⟩)

/-- Attempts that are enough to empty the queue: between two that settle an attribute, each one
takes an entry off the queue, and no attempt adds to those who wait or are queued. -/
def attemptBound (e : Evaluation σ V) : Nat :=
  (e.graph.pendingCount + 1) * (e.queue.length + e.graph.waiterCount + 1)

/-- Works off the queue. -/
def drain (g : Grammar) (h : Host σ V) (e : Evaluation σ V) : Except Fault (Evaluation σ V) :=
  if e.queue.isEmpty then .ok e else drainFrom g h e.attemptBound e

/-- Runs the semantic actions of a rule, and then all that they woke up. -/
def runRule (g : Grammar) (h : Host σ V) (rule : UInt32) (lhs : List Nat) (rhs : List (List Nat))
    (e : Evaluation σ V) : Except Fault (Evaluation σ V) := do
  let actions := (← g.rule rule).actions.toList
  drain g h (← performAll g h rule lhs rhs 0 actions e)

end Evaluation

end GrammarMachine
