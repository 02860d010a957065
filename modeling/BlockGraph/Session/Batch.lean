import BlockGraph.Document.Reader
import BlockGraph.Failure
import BlockGraph.Json.Reader
import BlockGraph.Session

/-!
Batches: a project and its requests as text, all answered at once.
-/

set_option autoImplicit false

namespace BlockGraph.Batch

def readProject (document : Json) : Except Failure Project :=
  match Document.readProject document with
  | .ok project => .ok project
  | .error malformed => .error (.ofMessage malformed.message)

/-- One request or an array of requests. -/
def readRequests (text : String) : Except Failure (List Request) :=
  let notJson : Failure := { cause := .json }
  match Json.parse? text with
  | none => .error notJson
  | some (.array items) => (items.mapM Request.ofJson?).elim (.error notJson) .ok
  | some (.object members) =>
    (Request.ofJson? (.object members)).elim (.error notJson) fun request => .ok [request]
  | some _ => .error (.ofMessage "Expected a request object or an array of requests.")

/-- Answers to all requests, with the project after them. -/
def run (projectText requestsText : String) : Except Failure Json := do
  let some document := Json.parse? projectText
    | throw { contexts := ["Invalid project.json."], cause := .json }
  let project ← readProject document
  let requests ← readRequests requestsText
  let (answers, session) := (Session.mk project .headless {} none).executeAll requests
  return .ofMembers
    [("responses", .array answers), ("project", Document.writeProject session.project)]

end BlockGraph.Batch
