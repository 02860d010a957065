import BlockGraph.Edit.FieldWrite

/-!
Adding a block from its template. The block becomes a script of its own, with a shadow in each input
that takes literals or menu entries. Fields that name an entity are bound after that; if one cannot
be bound, the block is removed again.
-/

set_option autoImplicit false

namespace BlockGraph

namespace NewBlock

/-- A field or input with the value to write to it. -/
abbrev Binding := String × String

/-- Members of the creation hints that name an entity, with the field they bind. -/
def hintFields : List (String × String) :=
  [("variableName", "VARIABLE"), ("listName", "LIST")]

/-- Bindings that the caller asks for. -/
def requestedBindings (spec : Catalog.BlockSpec) (creation : Json) :
    Except Fault (List Binding) := do
  let bindings ← hintFields.mapM fun (key, field) => do
    match creation.get? key with
    | none => return none
    | some hint =>
      match hint.text? with
      | none => throw (.notText key)
      | some name =>
        if spec.fields.any fun (declared, _) => declared = field then return some (field, name)
        else throw (.noFieldToBind spec.opcode field)
  return bindings.filterMap id

/-- The entity that a field of a new block names unless the caller asks for another one: the first
in scope, or the message of the template. -/
def implicitName? (project : Project) (index : Nat) (field template : String) : Option String :=
  match field with
  | "VARIABLE" => (project.variablesInScope index).head?.map fun (entity, _) => entity.name
  | "LIST" => (project.listsInScope index).head?.map fun (entity, _) => entity.name
  | "BROADCAST_OPTION" => some template
  | _ => none

def implicitBindings (project : Project) (index : Nat) (spec : Catalog.BlockSpec)
    (requested : List Binding) : List Binding :=
  spec.fields.filterMap fun (field, template) =>
    if requested.any fun (bound, _) => bound = field then none
    else (implicitName? project index field template).map (field, ·)

/-- Value of a new menu: the first costume, backdrop or sound where the menu lists those. -/
def menuValue (project : Project) (target : Target) (field template : String) : String :=
  match field with
  | "COSTUME" => target.costumes.head?.getD ""
  | "BACKDROP" => ((project.stage?.map Target.costumes).getD []).head?.getD ""
  | "SOUND_MENU" => target.sounds.head?.getD ""
  | _ => template

/-- Type, field and value of the shadow in an input of a new block. -/
def shadowOf? (project : Project) (target : Target) :
    Catalog.InputKind → Option (String × String × String)
  | .literal type template => some (type.opcode, type.field, template)
  | .menu opcode field template =>
    some (opcode, field, menuValue project target field template)
  | .boolean | .prototype => none

/-- Inputs of a new block with the shadows in them, by id. -/
def templateInputs (project : Project) (target : Target) (owner : String) :
    List Catalog.InputSpec → Revision Arena (List Input × List (String × Block))
  | [] => return ([], [])
  | input :: rest => do
    match shadowOf? project target input.kind with
    | none =>
      let (inputs, shadows) ← templateInputs project target owner rest
      return (Input.empty input.name :: inputs, shadows)
    | some (opcode, field, value) =>
      let id ← Arena.newId "shadow"
      let shadow : Block := {
        opcode := opcode
        parent := some owner
        fields := (∅ : Dict Field).insert field (Field.plain value) }
      let (inputs, shadows) ← templateInputs project target owner rest
      return (⟨input.name, some id, some id⟩ :: inputs, (id, shadow) :: shadows)

/-- Inputs of a new block whose shadow names a message. -/
def messageBindings (spec : Catalog.BlockSpec) : List Binding :=
  spec.inputs.filterMap fun input =>
    match input.kind with
    | .menu opcode field _ =>
      if Catalog.isMessageField opcode field then some (input.name, "message1") else none
    | _ => none

/-- Stores a block built from its template, and gives its id. -/
def place (project : Project) (target : Target) (spec : Catalog.BlockSpec) :
    Revision Arena String := do
  -- The numbers are spent in this order: the block, then its shadows from the first input on.
  let id ← Arena.newId "block"
  let height := (← get).nextScriptHeight
  let (inputs, shadows) ← templateInputs project target id spec.inputs
  modify (·.insert id {
    opcode := spec.opcode
    fields := Dict.ofList (spec.fields.map fun (name, value) => (name, Field.plain value))
    inputs := inputs
    topLevel := true
    x := some Binary64.zero
    y := some height })
  modify fun arena => shadows.foldl (fun arena (id, shadow) => arena.insert id shadow) arena
  return id

end NewBlock

namespace Project

/-- Adds a block of the given type to the editing target, and gives its id. -/
def addBlock (editor : Editor) (opcode : String) (creation : Json) : Revision Project String := do
  let project ← get
  let (index, target) ← Revision.check project.requireEditing
  match Catalog.spec? opcode with
  | none => throw (.unknownBlockType opcode)
  | some spec =>
    let requested ← Revision.check (NewBlock.requestedBindings spec creation)
    let bindings := requested ++ NewBlock.implicitBindings project index spec requested ++
      NewBlock.messageBindings spec
    let id ← onBlocks index (NewBlock.place project target spec)
    -- The block stands before its bindings are written. When one of them fails the block goes
    -- again, but a message that an earlier one created stays.
    try
      bindings.forM fun (field, name) => do
        let _ ← setField editor id field name
    catch fault =>
      let _ ← onBlocks index (Arena.discard id)
      throw fault
    return id

end Project

end BlockGraph
