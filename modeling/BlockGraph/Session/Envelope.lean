import BlockGraph.Fault

/-!
Envelopes: the answers to requests. A success carries the members of its payload beside the mark
that it is one, a failure its kind, message and details.
-/

set_option autoImplicit false

namespace BlockGraph.Envelope

/-- A payload that is no object stands in a member of its own. -/
def success (payload : Json) : Json :=
  let members : List (String × Json) :=
    match payload with
    | .object members => members
    | .null => []
    | other => [("data", other)]
  .ofMembers (("ok", .bool true) :: members)

def failure (report : Report) : Json :=
  let details := (report.details.map fun value => ("details", value)).toList
  .ofMembers (
    [("ok", .bool false), ("kind", .text report.kind.code), ("message", .text report.message)] ++
      details)

/-- Whether an answer is a success. -/
def isSuccess (answer : Json) : Bool :=
  answer.get? "ok" = some (.bool true)

end BlockGraph.Envelope
