import BlockGraph.Document.Writer
import BlockGraph.Edit.NewBlock
import BlockGraph.Json.Printer
import BlockGraph.Session.Answer
import BlockGraph.Session.Envelope
import BlockGraph.Session.Request

/-!
Sessions: a project that answers requests one after the other. Requests may name a block by the
number it has in the last listing; the numbering is forgotten when the blocks move.
-/

set_option autoImplicit false

namespace BlockGraph

structure Session where
  project : Project
  editor : Editor := Editor.headless
  options : ListingOptions := {}
  /-- Ids by number in the last listing. -/
  numbering : Option (List String) := none

namespace Session

variable {α : Type}

def onProject (change : Revision Project α) : Revision Session α :=
  fun session =>
    match change session.project with
    | .ok value project => .ok value { session with project := project }
    | .error fault project => .error fault { session with project := project }

def forgetNumbering : Revision Session Unit :=
  modify ({ · with numbering := none })

/-- Lists the editing target and remembers the numbering. -/
def list : Revision Session Listing := do
  let session ← get
  let listing ← Revision.check (session.project.listing session.editor session.options)
  set { session with numbering := some listing.numbering }
  return listing

/-- A block named by its id, or by its number in the last listing. -/
def blockArgument (session : Session) (args : Json) (idKey indexKey : String) :
    Except Fault String :=
  match args.textAt? idKey with
  | some id => .ok id
  | none =>
    match args.get? indexKey with
    | none => .error (.requiredEither indexKey idKey)
    | some index =>
      match index.nat?.filter fun number => 1 ≤ number with
      | none => .error (.notPositive indexKey)
      | some number =>
        match session.numbering with
        | none => .error .noNumbering
        | some ids =>
          -- Numbers count from one.
          match ids[number - 1]? with
          | none => .error (.indexNotFound number)
          | some id => .ok id

def block (args : Json) (idKey indexKey : String) : Revision Session String := do
  Revision.check ((← get).blockArgument args idKey indexKey)

def text (args : Json) (key : String) : Revision Session String :=
  Revision.check (Request.textArgument args key)

/-- Text to write for a value: text, a number or a truth value. -/
def valueArgument (args : Json) : Except Fault String :=
  match args.get? "value" with
  | some (.text value) => .ok value
  | some (.number value) => .ok value.render
  | some (.bool value) => .ok (if value then "true" else "false")
  | _ => .error (.required "value")

def argumentOrNull (args : Json) (key : String) : Json :=
  (args.get? key).getD .null

def listBlocks : Revision Session Json := do
  let listing ← list
  return Answer.blocks (← get).project listing

def setBlockField (args : Json) : Revision Session Json := do
  let id ← block args "blockId" "blockIndex"
  let name ← text args "fieldName"
  let value ← Revision.check (valueArgument args)
  let editor := (← get).editor
  let update ← onProject (Project.setField editor id name value)
  return .ofMembers
    [("updated", .ofNat 1), ("blockIndex", argumentOrNull args "blockIndex"),
      ("blockId", .text id), ("fieldName", .text name), ("resolvedField", .text update.field),
      ("value", .text update.value), ("originalValue", .text value)]

def addBlock (args : Json) : Revision Session Json := do
  let opcode ← text args "blockType"
  let editor := (← get).editor
  let id ← onProject (Project.addBlock editor opcode (argumentOrNull args "creation"))
  forgetNumbering
  return Answer.added id

def addEntity (kind : EntityKind) (args : Json) : Revision Session Json := do
  let name ← text args "name"
  let scope ← Revision.check (Scope.parse (Text.trim (← text args "scope")))
  let declared ← onProject (Project.declare kind name scope)
  return .ofMembers [("created", declared.toJson)]

def connectBlocks (args : Json) : Revision Session Json := do
  let source ← block args "sourceBlockId" "sourceBlockIndex"
  let target ← block args "targetBlockId" "targetBlockIndex"
  let placement ← Revision.check (Placement.ofJson (argumentOrNull args "placement"))
  onProject (Project.connectBlocks source target placement)
  forgetNumbering
  return Answer.connected source target placement

def detachBlocks (args : Json) : Revision Session Json := do
  let id ← block args "blockId" "blockIndex"
  let previousParent ← onProject (Project.detachBlocks id)
  forgetNumbering
  return Answer.detached id previousParent

def deleteBlock (args : Json) : Revision Session Json := do
  let indexKey := if (args.get? "blockIndex").isSome then "blockIndex" else "index"
  let id ← block args "blockId" indexKey
  let deletion ← onProject (Project.deleteBlock id)
  forgetNumbering
  return .ofMembers
    [("deleted", .bool true), ("index", argumentOrNull args indexKey), ("blockId", .text id),
      ("blockInfo", Answer.deleted id deletion)]

def selectSprite (args : Json) : Revision Session Json := do
  let name ← text args "name"
  let selected ← onProject (Project.selectSprite (Text.trim name))
  forgetNumbering
  return .ofMembers [("targetName", .text selected)]

def selectStage : Revision Session Json := do
  let selected ← onProject Project.selectStage
  forgetNumbering
  return .ofMembers [("targetName", .text selected)]

def perform (args : Json) : Api → Revision Session Json
  | .listBlocks => listBlocks
  | .setBlockField => setBlockField args
  | .addBlock => addBlock args
  | .addEntity list => addEntity (if list then .list else .variable) args
  | .connectBlocks => connectBlocks args
  | .detachBlocks => detachBlocks args
  | .deleteBlock => deleteBlock args
  | .selectSprite => selectSprite args
  | .selectStage => selectStage

def dispatch (request : Request) : Revision Session Json := do
  let api ← Revision.check (Api.ofName (Text.trim request.api))
  perform request.args api

def execute (session : Session) (request : Request) : Json × Session :=
  match dispatch request session with
  | .ok payload next => (Envelope.success payload, next)
  | .error fault next => (Envelope.failure fault.report, next)

def executeAll (session : Session) : List Request → List Json × Session
  | [] => ([], session)
  | request :: rest =>
    let (answer, next) := session.execute request
    let (answers, last) := next.executeAll rest
    (answer :: answers, last)

end Session

end BlockGraph
