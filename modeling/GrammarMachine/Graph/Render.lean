import GrammarMachine.Graph.Snapshot
import GrammarMachine.Json.Basic

/-!
Trees as JSON.
-/

namespace GrammarMachine.Snapshot

variable {V : Type}

/-- The fields that every kind of tree with a place in the text ends with. -/
def placeFields (pos : Nat) (error : Bool) : List (String × Json) :=
  [("pos", .nat pos), ("error", .bool error)]

mutual

def toJson (value : V → Json) : Snapshot V → Json
  | text content pos error =>
    .record ([("kind", .text "string"), ("text", .text content)] ++ placeFields pos error)
  | user function v pos error =>
    .record ([("kind", .text "user"), ("function", .nat function.toNat),
      ("value", .option value v)] ++ placeFields pos error)
  | term function children pos error =>
    .record ([("kind", .text "term"), ("function", .nat function.toNat),
      ("children", .array (toJsonAll value children))] ++ placeFields pos error)
  | null => .record [("kind", .text "null")]
  | pending => .record [("kind", .text "pending")]

def toJsonAll (value : V → Json) : List (Snapshot V) → List Json
  | [] => []
  | tree :: rest => toJson value tree :: toJsonAll value rest

end

end GrammarMachine.Snapshot
