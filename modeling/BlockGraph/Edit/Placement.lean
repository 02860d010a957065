import BlockGraph.Branch
import BlockGraph.Fault

/-!
Placements: where one block goes on another.
-/

set_option autoImplicit false

namespace BlockGraph

inductive Placement where
  /-- Right below the other block. -/
  | stackAfter
  /-- At the head of a branch. -/
  | statementInto (input : String)
  /-- Into a value input. -/
  | valueInto (input : String)
deriving DecidableEq, Repr

namespace Placement

def kind : Placement → String
  | .stackAfter => "stack_after"
  | .statementInto _ => "statement_into"
  | .valueInto _ => "value_into"

def input? : Placement → Option String
  | .stackAfter => none
  | .statementInto input => some input
  | .valueInto input => some input

/-- Reads a kind and the name of an input; a statement goes into the first branch by default. -/
def ofJson (value : Json) : Except Fault Placement :=
  let input := value.textAt? "inputName"
  match value.textAt? "kind" with
  | none => .error (.required "placement.kind")
  | some "stack_after" => .ok .stackAfter
  | some "statement_into" => .ok (.statementInto (input.getD Branch.first.name))
  | some "value_into" =>
    match input with
    | some input => .ok (.valueInto input)
    | none => .error .inputNameRequired
  | some kind => .error (.unknownPlacement kind)

end Placement

end BlockGraph
