import GrammarMachine.Fault
import GrammarMachine.Source

/-!
The result graph: nodes addressed by number, growing at the end. An attribute starts out pending
and is replaced in place once its value is known, so its number never changes. A copied attribute
becomes an alias of the attribute it copies.
-/

namespace GrammarMachine

/-- The semantic action that defines a pending attribute, with the nodes it reads. -/
structure Binding where
  rule : UInt32
  action : Nat
  params : List Nat
deriving DecidableEq, Repr

/-- An attribute without a value so far. -/
structure Pending where
  /-- Absent until the defining action has been reached. -/
  binding : Option Binding
  /-- Attributes to attempt again once this one is known. -/
  waiters : List Nat
  origin : Origin
deriving DecidableEq, Repr

inductive Node (V : Type) where
  /-- The text of a token. -/
  | text (content : String) (pos : Nat) (error : Bool)
  /-- What the host computed; no value if it refused. -/
  | user (function : UInt32) (value : Option V) (pos : Nat) (error : Bool)
  /-- A function applied to nodes, left as it is. -/
  | term (function : UInt32) (children : List Nat) (pos : Nat) (error : Bool)
  /-- Stands where an error left nothing. -/
  | null
  | link (target : Nat)
  | pending (state : Pending)
deriving Repr

namespace Node

variable {V : Type}

def isError : Node V → Bool
  | text _ _ error => error
  | user _ _ _ error => error
  | term _ _ _ error => error
  | null => true
  | link _ => false
  | pending _ => false

def pos? : Node V → Option Nat
  | text _ pos _ => some pos
  | user _ _ pos _ => some pos
  | term _ _ pos _ => some pos
  | pending state => some state.origin.pos
  | null => none
  | link _ => none

def isPending : Node V → Bool
  | pending _ => true
  | _ => false

/-- How many attributes wait for this one. -/
def waiterCount : Node V → Nat
  | pending state => state.waiters.length
  | _ => 0

end Node

structure Graph (V : Type) where
  nodes : Array (Node V)
deriving Repr

namespace Graph

variable {V : Type}

def empty : Graph V := ⟨#[]⟩

def size (g : Graph V) : Nat := g.nodes.size

/-- Adds a node and gives its number. -/
def alloc (g : Graph V) (node : Node V) : Nat × Graph V :=
  (g.size, ⟨g.nodes.push node⟩)

@[simp]
theorem size_alloc (g : Graph V) (node : Node V) : (g.alloc node).2.size = g.size + 1 := by
  simp [alloc, size]

/-- Adds `n` copies of a node and gives their numbers. -/
def allocMany (g : Graph V) (node : Node V) : Nat → List Nat × Graph V
  | 0 => ([], g)
  | n + 1 =>
    let (id, g) := g.alloc node
    let (ids, g) := g.allocMany node n
    (id :: ids, g)

/-- The node stored under `id`. -/
def node (g : Graph V) (id : Nat) : Except Fault (Node V) :=
  fetch g.nodes id (.node id)

/-- Puts a node in the place of another. -/
def replace (g : Graph V) (id : Nat) (node : Node V) : Except Fault (Graph V) :=
  if id < g.size then .ok ⟨g.nodes.setIfInBounds id node⟩ else .error (.node id)

/-- Follows at most `links` alias links. -/
def follow (g : Graph V) : Nat → Nat → Except Fault Nat
  | links, id => do
    match ← g.node id with
    | .link target =>
      match links with
      | 0 => .error (.aliasCycle id)
      | links + 1 => g.follow links target
    | _ => .ok id

/-- The first node behind `id` that is no alias. -/
def representative (g : Graph V) (id : Nat) : Except Fault Nat :=
  g.follow g.size id

def resolve (g : Graph V) (id : Nat) : Except Fault (Node V) := do
  g.node (← g.representative id)

def isPending (g : Graph V) (id : Nat) : Except Fault Bool :=
  return (← g.resolve id).isPending

def isError (g : Graph V) (id : Nat) : Except Fault Bool :=
  return (← g.resolve id).isError

/-- Text of a token leaf. -/
def text? (g : Graph V) (id : Nat) : Except Fault (Option String) := do
  match ← g.resolve id with
  | .text content _ _ => return some content
  | _ => return none

/-- Value of a node that the host computed. -/
def value? (g : Graph V) (id : Nat) : Except Fault (Option V) := do
  match ← g.resolve id with
  | .user _ value _ _ => return value
  | _ => return none

/-- Arguments of a term. -/
def children (g : Graph V) (id : Nat) : Except Fault (List Nat) := do
  match ← g.resolve id with
  | .term _ children _ _ => return children
  | _ => return []

def pendingCount (g : Graph V) : Nat :=
  g.nodes.toList.countP Node.isPending

/-- Turns every attribute that is still pending into a null node. -/
def settle (g : Graph V) : Graph V :=
  ⟨(g.nodes.toList.map fun node => if node.isPending then .null else node).toArray⟩

end Graph

end GrammarMachine
