/-!
Failures of whole runs: a cause, and what was being done when it came up, the outermost part first.
-/

set_option autoImplicit false

namespace BlockGraph

inductive FailureCause where
  /-- A text is no JSON, or not of the form that is read from it. -/
  | json
  /-- A file cannot be read or written. -/
  | storage
  /-- A file is no archive, or an archive cannot be built. -/
  | archive
  | other (message : String)
deriving DecidableEq, Repr

structure Failure where
  contexts : List String := []
  cause : FailureCause
deriving DecidableEq, Repr

namespace Failure

def ofMessage (message : String) : Failure :=
  { cause := .other message }

def within (context : String) (failure : Failure) : Failure :=
  { failure with contexts := context :: failure.contexts }

/-- All that this program itself says about the failure. -/
def message (failure : Failure) : String :=
  let own :=
    match failure.cause with
    | .other message => [message]
    | _ => []
  ": ".intercalate (failure.contexts ++ own)

end Failure

end BlockGraph
