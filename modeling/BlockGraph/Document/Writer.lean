import BlockGraph.Catalog.Spec
import BlockGraph.Project

/-!
Documents from projects. Every block is written in full, and members that a project does not model
are written as they were read.
-/

set_option autoImplicit false

namespace BlockGraph.Document

def writeInput (input : Input) : Json :=
  let mode (code : Nat) (values : List Json) := Json.array (.ofNat code :: values)
  match input.block, input.shadow with
  | some block, some shadow =>
    if block = shadow then mode 1 [.text shadow] else mode 3 [.text block, .text shadow]
  | some block, none => mode 2 [.text block]
  | none, some shadow => mode 1 [.text shadow]
  | none, none => mode 1 [.null]

def writeInputs (block : Block) : Json :=
  let inputs := block.inputs.map fun input => (input.name, writeInput input)
  let branches := Branch.all.filterMap fun branch =>
    (block.branch branch).map fun head => (branch.name, Json.array [.ofNat 2, .text head])
  .ofMembers (inputs ++ branches)

def writeFields (fields : Dict Field) : Json :=
  .ofDict (fields.map fun _ field => .array [.text field.value, .ofText? field.id])

/-- A top-level block has a place, at the origin when it is not known. -/
def writeBlock (block : Block) : Json :=
  let coordinate (x : Option Binary64) := Json.ofBinary64 (x.getD Binary64.zero)
  let place := if block.topLevel then [("x", coordinate block.x), ("y", coordinate block.y)] else []
  let mutation := (block.mutation.map fun value => ("mutation", value)).toList
  .ofMembers (
    [("opcode", .text block.opcode), ("next", .ofText? block.next),
      ("parent", .ofText? block.parent), ("inputs", writeInputs block),
      ("fields", writeFields block.fields),
      ("shadow", .bool (Catalog.kind block.opcode = .shadow)),
      ("topLevel", .bool block.topLevel)] ++ place ++ mutation)

def writeVariables (vars : List Entity) : Json :=
  .ofMembers (vars.map fun entity => (entity.id, .array [.text entity.name, entity.value]))

/-- A list whose value is no array is written as an empty one. -/
def writeLists (lists : List Entity) : Json :=
  .ofMembers (lists.map fun list =>
    (list.id, .array [.text list.name, .array (list.value.items?.getD [])]))

def writeBroadcasts (broadcasts : List Entity) : Json :=
  .ofMembers (broadcasts.map fun message => (message.id, .text message.name))

def writeTarget (target : Target) : Json :=
  let modelled :=
    [("name", .text target.name), ("isStage", .bool target.isStage),
      ("variables", writeVariables target.vars), ("lists", writeLists target.lists),
      ("broadcasts", writeBroadcasts target.broadcasts),
      ("blocks", .ofDict (target.blocks.blocks.map fun _ block => writeBlock block))]
  .ofDict (modelled.foldl (fun members (key, value) => members.insert key value) target.rest)

def writeProject (project : Project) : Json :=
  .ofDict (project.rest.insert "targets" (.array (project.targets.map writeTarget)))

end BlockGraph.Document
