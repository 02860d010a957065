import BlockGraph.Choice
import BlockGraph.Edit.Workspace
import BlockGraph.Outline

/-!
Writing a field. A name on a block stands for a field of the block itself, or for an input whose
shadow holds the value; an input without a shadow gets one first. If the value is then refused, the
input is put back as it was.
-/

set_option autoImplicit false

namespace BlockGraph

/-- What was written, and where. -/
structure FieldUpdate where
  field : String
  value : String
deriving DecidableEq

namespace FieldWrite

/-- A shadow that was plugged in for a write, and the input as it was before. -/
structure Plug where
  owner : String
  shadow : String
  /-- The input was missing. -/
  isNew : Bool
  previous : Input
deriving DecidableEq

/-- The field that a write goes to. -/
structure Slot where
  block : String
  field : String
  plug : Option Plug
deriving DecidableEq

/-- The field of a plugged block that holds the value of an input; only shadows have one. -/
def shadowField (input id : String) (plugged : Block) : Except Fault String :=
  if Catalog.kind plugged.opcode ≠ .shadow then .error (.holdsBlock input id plugged.opcode)
  else
    let primary := (Catalog.primaryField? plugged.opcode).filter plugged.fields.contains
    match primary.or (plugged.firstField?.map Prod.fst) with
    | some field => .ok field
    | none => .error (.noWritableField id plugged.opcode)

/-- Type, field and value of the shadow that an input without one gets. -/
def shadowTemplate (opcode input : String) : Except Fault (String × String × String) :=
  match Catalog.inputKind? opcode input with
  | some (.menu shadow field template) => .ok (shadow, field, template)
  | some .prototype => .error (.noShadow input opcode)
  | _ =>
    let type := Catalog.LiteralType.infer input none
    .ok (type.opcode, type.field, "")

/-- Puts an input back. The shadow goes too, unless the input named it before. -/
def unplug (arena : Arena) (plug : Plug) : Arena :=
  let name := plug.previous.name
  let kept := plug.previous.shadow = some plug.shadow
  let arena := if kept then arena else arena.remove plug.shadow
  arena.modifyBlock plug.owner fun owner =>
    if plug.isNew then owner.withoutInput name else owner.modifyInput name fun _ => plug.previous

/-- Plugs in the shadow that the input still owns. -/
def replug (owner shadow : String) (block : Block) (previous : Input) : Revision Arena Slot := do
  let field ← Revision.check (shadowField previous.name shadow block)
  Arena.update owner (·.withInput previous.name ({ · with block := some shadow }))
  return ⟨shadow, field, some ⟨owner, shadow, false, previous⟩⟩

/-- Plugs in a new shadow. A boolean input refuses it again. -/
def plugNew (owner opcode : String) (isNew : Bool) (previous : Input) : Revision Arena Slot := do
  let (shadowOpcode, field, template) ← Revision.check (shadowTemplate opcode previous.name)
  let shadow ← Arena.newId "shadow"
  modify (·.insert shadow {
    opcode := shadowOpcode
    parent := some owner
    fields := (∅ : Dict Field).insert field (Field.plain template) })
  let plug : Plug := ⟨owner, shadow, isNew, previous⟩
  -- The shadow is already stored; its number stays spent when the input turns it away.
  if Catalog.isBooleanInput opcode previous.name then
    modify (unplug · plug)
    throw (.booleanOnly previous.name opcode)
  Arena.update owner (·.withInput previous.name
    ({ · with block := some shadow, shadow := some shadow }))
  return ⟨shadow, field, some plug⟩

/-- The slot that `name` stands for on a block. -/
def resolve (id name : String) : Revision Arena Slot := do
  let arena ← get
  match arena.get? id with
  | none => throw (.blockNotFound id)
  | some block =>
    if block.fields.contains name then return ⟨id, name, none⟩
    match block.plugged? name with
    | some child =>
      let plugged ← Arena.stored child
      let field ← Revision.check (shadowField name child plugged)
      return ⟨child, field, none⟩
    | none =>
      match block.input? name with
      | some previous =>
        match previous.shadow.bind fun shadow => (arena.get? shadow).map (shadow, ·) with
        | some (shadow, kept) => replug id shadow kept previous
        | none => plugNew id block.opcode false previous
      | none =>
        if (Catalog.expectedInputs block.opcode).contains name then
          plugNew id block.opcode true (Input.empty name)
        else throw (.inputUnavailable name id (Outline.inputNames block))

/-- What goes into a field. -/
inductive Content where
  | plain (text : String)
  | reference (label id : String)
  /-- A message by its name, which may have to be created. -/
  | message (name : String)
deriving DecidableEq

/-- What a value means for a field: a message, an entity by its name or id, the code of a menu entry
by its label, or the value itself. -/
def interpret (context : ChoiceContext) (opcode current : String) (slot : Slot) (value : String) :
    Except Fault Content :=
  if Catalog.isMessageField opcode slot.field then
    if Text.isBlankText value then .error .emptyMessageName else .ok (.message value)
  else
    let options := (context.options? opcode slot.field current slot.block).getD []
    let labelled := options.find? fun option => option.label = value
    if Catalog.isReferenceField slot.field then
      match labelled.or (options.find? fun option => option.code = value) with
      | some option => .ok (.reference option.label option.code)
      | none => .error (.notInScope slot.field value (options.map MenuOption.label))
    else .ok (.plain ((labelled.map MenuOption.code).getD value))

def isHexDigit (c : Char) : Bool :=
  c.isDigit || ('a' ≤ c && c ≤ 'f') || ('A' ≤ c && c ≤ 'F')

/-- A color code: a number sign and six hexadecimal digits. -/
def isColorCode (text : String) : Bool :=
  match text.toList with
  | '#' :: digits => digits.length == 6 && digits.all isHexDigit
  | _ => false

/-- A color picker that was there before takes color codes only. -/
def validate (opcode : String) (slot : Slot) : Content → Except Fault Unit
  | .plain text =>
    if slot.plug.isNone && Catalog.LiteralType.ofOpcode? opcode = some .color &&
        !isColorCode text then .error (.notColor text slot.field)
    else .ok ()
  | _ => .ok ()

/-- The field for a content, and the value that is reported. -/
def contentField : Content → Revision Project (Field × String)
  | .plain text => return (Field.plain text, text)
  | .reference label id => return (Field.reference label id, id)
  | .message name => do
    let id ← Project.ensureBroadcast name
    return (Field.reference name id, id)

/-- Writes a value to a slot of the target at `index`. -/
def write (editor : Editor) (index : Nat) (slot : Slot) (value : String) :
    Revision Project FieldUpdate := do
  let owner ← Project.onBlocks index (Arena.stored slot.block)
  let current := ((owner.fields.get? slot.field).map Field.value).getD ""
  let context : ChoiceContext := ⟨← get, index, editor⟩
  let content ← Revision.check (interpret context owner.opcode current slot value)
  Revision.check (validate owner.opcode slot content)
  let (field, reported) ← contentField content
  Project.onBlocks index (Arena.update slot.block fun block =>
    { block with fields := block.fields.insert slot.field field })
  return ⟨slot.field, reported⟩

end FieldWrite

namespace Project

/-- Writes `value` to the field that `name` stands for on a block of the editing target. -/
def setField (editor : Editor) (block name value : String) : Revision Project FieldUpdate := do
  let index ← editingIndex
  let slot ← onBlocks index (FieldWrite.resolve block name)
  try FieldWrite.write editor index slot value
  catch fault =>
    -- Only what `resolve` plugged in for this write is undone.
    if let some plug := slot.plug then
      onBlocks index (modify (FieldWrite.unplug · plug))
    throw fault

end Project

end BlockGraph
