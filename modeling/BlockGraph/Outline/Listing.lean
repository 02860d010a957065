import BlockGraph.Choice
import BlockGraph.Outline
import BlockGraph.Text.Quoted

/-!
Listings: the outline of the editing target as indented lines, with a record for each numbered
block. Options and editor only add to lines and records; what is shown, and in which order, is
settled by the outline.
-/

set_option autoImplicit false

namespace BlockGraph

structure ListingOptions where
  /-- Block ids stand behind the block lines. -/
  withIds : Bool := false
  /-- Choices stand behind fields and menus. -/
  withChoices : Bool := true
deriving DecidableEq

structure Record where
  id : String
  block : Block
  geometry : Geometry
deriving DecidableEq

structure Listing where
  lines : List String
  /-- Records by number, the first one being number one. -/
  records : List Record
  targetName : String
deriving DecidableEq

namespace Outline

def spaces (count : Nat) : String :=
  String.ofList (List.replicate count ' ')

/-- Start of a line that belongs to a block. -/
def indent (depth : Nat) : String :=
  spaces (4 * depth)

def propertyIndent (depth : Nat) : String :=
  spaces (4 * depth + 2)

/-- Value that a shadow shows: text in quotes, a number without blanks around it unless nothing
remains, anything else as it is. -/
def shadowValue? (shadow : Block) : Option String :=
  let value? (field : String) := (shadow.fields.get? field).map Field.value
  match Catalog.LiteralType.ofOpcode? shadow.opcode with
  | some .text => (value? "TEXT").map Text.quote
  | some .color => value? "COLOUR"
  | some _ => ((value? "NUM").map Text.trim).filter fun text => text ≠ ""
  | none => shadow.firstField?.map fun (_, field) => field.value

/-- The value of a shadow with its type, or the type alone. -/
def shadowText (shadow : Block) : String :=
  match shadowValue? shadow with
  | some value => s!"{value} (" ++ shadow.opcode ++ ")"
  | none => shadow.opcode

/-- The field of an entry that has choices: block type, name, value and block. -/
def choiceField? : Entry → Option (String × String × String × String)
  | .field owner opcode name field _ => some (opcode, name, field.value, owner)
  | .literal _ id shadow _ => do
    let name ← Catalog.primaryField? shadow.opcode
    let field ← shadow.fields.get? name
    return (shadow.opcode, name, field.value, id)
  | _ => none

/-- The line of an entry without ids and choices. -/
def plainLine : Entry → String
  | .separator => ""
  | .header index _ block depth top =>
    indent depth ++ s!"#{index} " ++ block.opcode ++ if top then " [top]" else ""
  | .field _ _ name field depth => propertyIndent depth ++ s!"- field {name}: " ++ field.value
  | .input name depth => propertyIndent depth ++ s!"- input {name}:"
  | .literal name _ shadow depth =>
    propertyIndent depth ++ s!"- input {name}: " ++ shadowText shadow
  | .branch branch depth => propertyIndent depth ++ "- " ++ branch.name ++ ":"

def idSuffix (options : ListingOptions) : Entry → String
  | .header _ id _ _ _ => if options.withIds then s!" (id: {id})" else ""
  | _ => ""

def choiceSuffix (context : ChoiceContext) (options : ListingOptions) (entry : Entry) : String :=
  if options.withChoices then
    match choiceField? entry with
    | none => ""
    | some (opcode, name, value, id) =>
      match context.resolve? opcode name value id with
      | none => ""
      | some choices => " " ++ choices.display
  else ""

def line (context : ChoiceContext) (options : ListingOptions) (entry : Entry) : String :=
  plainLine entry ++ idSuffix options entry ++ choiceSuffix context options entry

/-- The place that the editor knows, or else the stored one. -/
def geometry (editor : Editor) (id : String) (block : Block) : Geometry :=
  let stored : Option Position := do return ⟨← block.x, ← block.y⟩
  let live := (editor.geometry? id).getD {}
  { live with position := live.position.or stored }

def record? (editor : Editor) : Entry → Option Record
  | .header _ id block _ _ => some ⟨id, block, geometry editor id block⟩
  | _ => none

end Outline

namespace Project

def listing (project : Project) (editor : Editor) (options : ListingOptions) :
    Except Fault Listing := do
  let (index, target) ← project.requireEditing
  let entries ← Damage.orFault (Outline.ofArena target.blocks)
  let context : ChoiceContext := ⟨project, index, editor⟩
  return {
    lines := entries.map (Outline.line context options)
    records := entries.filterMap (Outline.record? editor)
    targetName := target.name }

end Project

namespace Record

/-- Links of a block by slot name, those of branches in place of inputs of the same name. -/
def inputsJson (block : Block) : Json :=
  let slot (name : String) (block shadow : Option String) : String × Json :=
    (name, .ofMembers
      [("name", .text name), ("block", .ofText? block), ("shadow", .ofText? shadow)])
  let inputs := block.inputs.map fun input => slot input.name input.block input.shadow
  let branches := Branch.all.filterMap fun branch =>
    (block.branch branch).map fun head => slot branch.name (some head) none
  .ofMembers (inputs ++ branches)

def fieldsJson (block : Block) : Json :=
  .ofDict (block.fields.map fun name field =>
    .ofMembers [("name", .text name), ("value", .text field.value), ("id", .ofText? field.id)])

def toJson (record : Record) : Json :=
  let place :=
    (record.geometry.position.map fun position => ("position", position.toJson)).toList ++
      (record.geometry.boundingBox.map fun box => ("boundingBox", box.toJson)).toList
  .ofMembers (place ++
    [("id", .text record.id), ("opcode", .text record.block.opcode),
      ("parent", .ofText? record.block.parent), ("next", .ofText? record.block.next),
      ("inputs", inputsJson record.block), ("fields", fieldsJson record.block)])

end Record

namespace Listing

def pseudocode (listing : Listing) : String :=
  "\n".intercalate listing.lines

/-- Ids by number. -/
def numbering (listing : Listing) : List String :=
  listing.records.map Record.id

/-- Members of the answer: the text, and the records by number and by id. -/
def members (listing : Listing) : List (String × Json) :=
  let byIndex := listing.records.zipIdx.map fun (record, index) =>
    ((index + 1).repr, record.toJson)
  let byId := listing.records.map fun record => (record.id, record.toJson)
  [("pseudocode", .text listing.pseudocode), ("idxToBlock", .ofMembers byIndex),
    ("idToBlock", .ofMembers byId), ("targetName", .text listing.targetName)]

def toJson (listing : Listing) : Json :=
  .ofMembers listing.members

end Listing

end BlockGraph
