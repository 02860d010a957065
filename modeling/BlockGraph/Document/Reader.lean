import BlockGraph.Json.Printer
import BlockGraph.Project

/-!
Projects from documents. In a document a literal may stand in the place of a block id; reading gives
each such literal a block of its own. Scripts are ordered from top to bottom and from left to right.
-/

set_option autoImplicit false

namespace BlockGraph.Document

/-- Why the blocks of a target cannot be read. -/
inductive BlocksFault where
  | invalidShape (id : String)
  | missingOpcode (id : String)
  | unknownPrimitive (id : String)
  | unknownInputPrimitive (input id : String)
deriving DecidableEq, Repr

def BlocksFault.message : BlocksFault → String
  | .invalidShape id => s!"Block '{id}' has an invalid shape."
  | .missingOpcode id => s!"Block '{id}' missing opcode."
  | .unknownPrimitive id => s!"Block '{id}' is an unknown primitive."
  | .unknownInputPrimitive input id =>
    s!"Input '{input}' of block '{id}' holds an unknown primitive."

/-- Why a document is no project. -/
inductive Malformed where
  | noTargets
  | unnamedTarget
  | noStageFlag (target : String)
  | invalidBlocks (target : String)
  | inTarget (target : String) (fault : BlocksFault)
deriving DecidableEq, Repr

def Malformed.message : Malformed → String
  | .noTargets => "Invalid project.json: missing 'targets' array."
  | .unnamedTarget => "Target missing 'name'."
  | .noStageFlag target => s!"Target '{target}' missing isStage."
  | .invalidBlocks target => s!"Target '{target}' has invalid blocks object."
  | .inTarget target fault => s!"In target '{target}'.: " ++ fault.message

/-- Text of a value in a field: text stands for itself and `null` for nothing. -/
def valueText : Json → String
  | .text value => value
  | .null => ""
  | other => other.render

def readField : Json → Field
  | .array items =>
    { value := (items.head?.map valueText).getD ""
      id := items[1]?.bind Json.text? }
  | other => Field.plain (valueText other)

/-- Variables or lists: an entry counts when it is an array that starts with a name. -/
def readDeclarations (value : Option Json) : List Entity :=
  let entries := ((value.bind Json.members?).getD ∅).entries
  entries.filterMap fun (id, entry) => do
    let items ← entry.items?
    let name ← items.head?.bind Json.text?
    return ⟨id, name, items[1]?.getD .null⟩

def readBroadcasts (value : Option Json) : List Entity :=
  let entries := ((value.bind Json.members?).getD ∅).entries
  entries.filterMap fun (id, entry) => do
    let name ← entry.text?
    return ⟨id, name, entry⟩

/-- Names of costumes or sounds. -/
def readNames (value : Option Json) : List String :=
  ((value.bind Json.items?).getD []).filterMap fun asset => asset.textAt? "name"

/-- The block that a literal stands for, by its numeric code. -/
def literalBlock? (items : List Json) : Option Block := do
  let code ← items.head?.bind Json.signedWord?
  let text := (items[1]?.map valueText).getD ""
  let plain := Field.plain text
  let reference := Field.reference text ((items[2]?.bind Json.text?).getD "")
  let (opcode, name, field) ←
    match code with
    | 4 => some ("math_number", "NUM", plain)
    | 5 => some ("math_positive_number", "NUM", plain)
    | 6 => some ("math_whole_number", "NUM", plain)
    | 7 => some ("math_integer", "NUM", plain)
    | 8 => some ("math_angle", "NUM", plain)
    | 9 => some ("colour_picker", "COLOUR", plain)
    | 10 => some ("text", "TEXT", plain)
    | 11 => some ("event_broadcast_menu", "BROADCAST_OPTION", reference)
    | 12 => some ("data_variable", "VARIABLE", reference)
    | 13 => some ("data_listcontents", "LIST", reference)
    | _ => none
  return { opcode := opcode, fields := (∅ : Dict Field).insert name field }

/-- The part of an input that a value takes. -/
inductive Seat where
  | block
  | shadow
  | both
deriving DecidableEq, Repr

def Seat.fill (seat : Seat) (id : String) (input : Input) : Input :=
  match seat with
  | .block => { input with block := some id }
  | .shadow => { input with shadow := some id }
  | .both => { input with block := some id, shadow := some id }

/-- A literal in an input, which has no block of its own yet. -/
structure Pending where
  owner : String
  input : String
  seat : Seat
  literal : List Json

/-- Values of an input with their seats, by its numeric mode. -/
def seats (items : List Json) : List (Seat × Option Json) :=
  match (items.head?.bind Json.signedWord?).getD 0 with
  | 1 => [(.both, items[1]?)]
  | 2 => [(.block, items[1]?)]
  | 3 => [(.block, items[1]?), (.shadow, items[2]?)]
  | _ => []

/-- An input with the ids it names. -/
def readInput (name : String) (value : Json) : Input :=
  (seats (value.items?.getD [])).foldl
    (fun input (seat, payload) =>
      match payload with
      | some (.text id) => seat.fill id input
      -- A literal has no id yet and leaves its seat open.
      | _ => input)
    (Input.empty name)

def pendingOf (owner name : String) (value : Json) : List Pending :=
  (seats (value.items?.getD [])).filterMap fun (seat, payload) =>
    match payload with
    | some (.array literal) => some ⟨owner, name, seat, literal⟩
    | _ => none

/-- Slots of a block that are not branches, in order of their names. -/
def valueSlots (value : Json) : List (String × Json) :=
  let slots := ((value.get? "inputs").bind Json.members?).getD ∅
  slots.entries.filter fun (name, _) => (Branch.ofName? name).isNone

def readBranch (value : Json) (branch : Branch) : Option String := do
  let slot ← (← value.get? "inputs").get? branch.name
  let items ← slot.items?
  items[1]?.bind Json.text?

/-- A block that is written in full, without the literals in its inputs. -/
def readBlock (id : String) (value : Json) : Except BlocksFault Block :=
  match value.textAt? "opcode" with
  | none => .error (.missingOpcode id)
  | some opcode =>
    let topLevel := ((value.get? "topLevel").bind Json.bool?).getD false
    let coordinate (key : String) :=
      if topLevel then (value.get? key).bind Json.binary64? else none
    let fields := ((value.get? "fields").bind Json.members?).getD ∅
    .ok {
      opcode := opcode
      fields := fields.map fun _ field => readField field
      inputs := (valueSlots value).map fun (name, slot) => readInput name slot
      branches := ⟨readBranch value .first, readBranch value .second⟩
      next := value.textAt? "next"
      parent := value.textAt? "parent"
      topLevel := topLevel
      x := coordinate "x"
      y := coordinate "y"
      mutation := value.get? "mutation" }

/-- Stores a block that is written in full; a literal is left for later. -/
def storeBlock (arena : Arena) (entry : String × Json) : Except BlocksFault Arena :=
  match entry with
  | (id, .object members) => (readBlock id (.object members)).map (arena.insert id)
  | (_, .array _) => .ok arena
  | (id, _) => .error (.invalidShape id)

/-- Stores a literal that stands on the workspace by itself. -/
def storeLiteral (arena : Arena) (entry : String × Json) : Except BlocksFault Arena :=
  match entry with
  | (id, .array items) =>
    match literalBlock? items with
    | none => .error (.unknownPrimitive id)
    | some block =>
      .ok (arena.insert id {
        block with
        topLevel := true
        x := items[3]?.bind Json.binary64?
        y := items[4]?.bind Json.binary64? })
  | _ => .ok arena

/-- Gives a literal in an input a block under a new id. -/
def storePending (arena : Arena) (pending : Pending) : Except BlocksFault Arena :=
  let (id, arena) := arena.freshId "prim"
  match literalBlock? pending.literal with
  | none => .error (.unknownInputPrimitive pending.input pending.owner)
  | some block =>
    let stored := arena.insert id { block with parent := some pending.owner }
    .ok (stored.modifyBlock pending.owner (·.withInput pending.input (pending.seat.fill id)))

/-- Literals in the inputs of a block that is written in full. -/
def pendingInputs : String × Json → List Pending
  | (id, .object members) =>
    (valueSlots (.object members)).flatMap fun (name, slot) => pendingOf id name slot
  | _ => []

/-- A coordinate rounded to a whole number within a signed word; an absent one comes last. -/
def orderKey (coordinate : Option Binary64) : Int :=
  match coordinate with
  | none => Json.signedBound - 1
  | some x => min (max x.round (-Json.signedBound)) (Json.signedBound - 1)

/-- Place of a script in reading order: height, then width, then id. -/
def scriptKey (id : String) (block : Block) : Int × Int × String :=
  (orderKey block.y, orderKey block.x, id)

def scriptLe : Int × Int × String → Int × Int × String → Bool
  | (y, x, id), (y', x', id') =>
    y < y' || y == y' && (x < x' || x == x' && id ≤ id')

def readBlocks (blocks : Dict Json) : Except BlocksFault Arena := do
  -- Literals in inputs come last: their new ids must avoid those of all other blocks.
  let written ← blocks.entries.foldlM storeBlock {}
  let standing ← blocks.entries.foldlM storeLiteral written
  let complete ← (blocks.entries.flatMap pendingInputs).foldlM storePending standing
  return complete.sortScripts scriptKey scriptLe

/-- Members of a target that have a form of their own in a project. -/
def modelledMembers : List String :=
  ["blocks", "variables", "lists", "broadcasts"]

def readTarget (value : Json) : Except Malformed Target := do
  let some name := value.textAt? "name" | throw .unnamedTarget
  let some isStage := (value.get? "isStage").bind Json.bool? | throw (.noStageFlag name)
  let blocks ←
    match value.get? "blocks" with
    | none => pure ∅
    | some blocks =>
      match blocks.members? with
      | none => throw (.invalidBlocks name)
      | some blocks => pure blocks
  let arena ←
    match readBlocks blocks with
    | .error fault => throw (.inTarget name fault)
    | .ok arena => pure arena
  return {
    name := name
    isStage := isStage
    blocks := arena
    vars := readDeclarations (value.get? "variables")
    lists := readDeclarations (value.get? "lists")
    broadcasts := readBroadcasts (value.get? "broadcasts")
    costumes := readNames (value.get? "costumes")
    sounds := readNames (value.get? "sounds")
    rest := modelledMembers.foldl Dict.erase (value.members?.getD ∅) }

def readProject (value : Json) : Except Malformed Project := do
  let some targets := (value.get? "targets").bind Json.items? | throw .noTargets
  let targets ← targets.mapM readTarget
  return Project.ofTargets targets ((value.members?.getD ∅).erase "targets")

end BlockGraph.Document
