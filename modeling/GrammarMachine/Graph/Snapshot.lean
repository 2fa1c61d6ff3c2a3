import GrammarMachine.Graph.Basic

/-!
Trees read off the result graph, with aliases followed. `Graph.snapshot` keeps its own stack of
work, so that deep trees need no deep recursion; `Graph.tree` is the same tree by recursion.
-/

namespace GrammarMachine

inductive Snapshot (V : Type) where
  | text (content : String) (pos : Nat) (error : Bool)
  | user (function : UInt32) (value : Option V) (pos : Nat) (error : Bool)
  | term (function : UInt32) (children : List (Snapshot V)) (pos : Nat) (error : Bool)
  | null
  | pending
deriving Repr

namespace Snapshot

variable {V : Type}

mutual

def beq [BEq V] : Snapshot V → Snapshot V → Bool
  | text c p e, text c' p' e' => c == c' && p == p' && e == e'
  | user f v p e, user f' v' p' e' => f == f' && v == v' && p == p' && e == e'
  | term f cs p e, term f' cs' p' e' => f == f' && p == p' && e == e' && beqAll cs cs'
  | null, null => true
  | pending, pending => true
  | _, _ => false

def beqAll [BEq V] : List (Snapshot V) → List (Snapshot V) → Bool
  | [], [] => true
  | s :: rest, s' :: rest' => beq s s' && beqAll rest rest'
  | _, _ => false

end

instance [BEq V] : BEq (Snapshot V) := ⟨beq⟩

end Snapshot

namespace Graph

variable {V : Type}

/-- The tree under `id` by recursion, at most `depth` terms deep. -/
def tree (g : Graph V) : Nat → Nat → Except Fault (Snapshot V)
  | depth, id => do
    match ← g.resolve id with
    | .text content pos error => return .text content pos error
    | .user function value pos error => return .user function value pos error
    | .term function children pos error =>
      match depth with
      | 0 => .error .exhausted
      | depth + 1 => return .term function (← children.mapM (g.tree depth)) pos error
    | .null => return .null
    | .pending _ => return .pending
    | .link target => .error (.link target)

/-- Number of work items that the tree under `id` takes. -/
def workload (g : Graph V) : Nat → Nat → Except Fault Nat
  | depth, id => do
    match ← g.resolve id with
    | .term _ children _ _ =>
      match depth with
      | 0 => .error .exhausted
      | depth + 1 => return (← children.mapM (g.workload depth)).foldl Nat.add 2
    | _ => return 1

/-- An item on the stack of work. -/
inductive Work where
  | visit (id : Nat)
  /-- Makes a term of the last `arity` finished trees. -/
  | close (function : UInt32) (arity : Nat) (pos : Nat) (error : Bool)
deriving DecidableEq, Repr

/-- Works off the stack; `built` holds the finished trees, last one first. -/
def assemble (g : Graph V) : Nat → List Work → List (Snapshot V) → Except Fault (Snapshot V)
  | _, [], built => .ok (built.headD .null)
  | 0, _ :: _, _ => .error .exhausted
  | fuel + 1, .visit id :: work, built => do
    match ← g.resolve id with
    | .text content pos error => g.assemble fuel work (.text content pos error :: built)
    | .user function value pos error =>
      g.assemble fuel work (.user function value pos error :: built)
    | .term function children pos error =>
      g.assemble fuel
        (children.map .visit ++ .close function children.length pos error :: work) built
    | .null => g.assemble fuel work (.null :: built)
    | .pending _ => g.assemble fuel work (.pending :: built)
    | .link target => .error (.link target)
  | fuel + 1, .close function arity pos error :: work, built =>
    if built.length < arity then .error .arity
    else
      g.assemble fuel work
        (.term function (built.take arity).reverse pos error :: built.drop arity)

/-- The tree under `id`. -/
def snapshot (g : Graph V) (id : Nat) : Except Fault (Snapshot V) := do
  let fuel ← g.workload g.size id
  g.assemble fuel [.visit id] []

end Graph

end GrammarMachine
