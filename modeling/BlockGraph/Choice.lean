import BlockGraph.Catalog.Menu
import BlockGraph.Editor
import BlockGraph.Project

/-!
Choices: the values that a field may take. A live menu of the editor comes first; otherwise the
options are those of a fixed menu, or they are computed from the project and grouped by where they
come from.
-/

set_option autoImplicit false

namespace BlockGraph

/-- Labels by group. -/
abbrev ChoiceSet := Dict (List String)

/-- Groups in brackets, as they stand behind a line of a listing. -/
def ChoiceSet.display (choices : ChoiceSet) : String :=
  let group (entry : String × List String) := entry.1 ++ "=[" ++ ", ".intercalate entry.2 ++ "]"
  "\x7bchoices: " ++ "; ".intercalate (choices.entries.map group) ++ "\x7d"

/-- What choices depend on. -/
structure ChoiceContext where
  project : Project
  target : Nat
  editor : Editor

namespace ChoiceContext

abbrev Group := String × List MenuOption

def entityOptions (entities : List Entity) : List MenuOption :=
  entities.map fun entity => ⟨entity.name, entity.id⟩

/-- Properties of the object that is chosen in the menu beside the field: those that every stage or
every sprite has, and then its variables. -/
def propertyOptions? (context : ChoiceContext) (blocks : Arena) (block : String) :
    Option (List MenuOption) := do
  let owner ← blocks.get? block
  let menu := (owner.plugged? "OBJECT").bind blocks.get?
  let chosen := menu.bind fun menu => menu.fields.get? "OBJECT"
  let object := (chosen.map Field.value).getD "_stage_"
  let (properties, target) :=
    if object = "_stage_" then (Catalog.stageProperties, context.project.stage?)
    else
      (Catalog.spriteProperties,
        context.project.targets.find? fun target => target.name = object)
  let vars := (target.map Target.vars).getD []
  return sameOptions properties ++ sameOptions (vars.map Entity.name)

/-- Sprites that a menu of sprites lists: all others, or every one for the choice of an object. -/
def spriteOptions (context : ChoiceContext) (target : Target) (field : String) :
    List MenuOption :=
  let sprites := context.project.targets.filter fun sprite =>
    !sprite.isStage && (field = "OBJECT" || sprite.name ≠ target.name)
  sameOptions (sprites.map Target.name)

/-- Groups of options that follow from the project; `none` when the block or the target that they
depend on is missing. -/
def groups? (context : ChoiceContext) (opcode field block : String) : Option (List Group) := do
  let project := context.project
  let target ← project.targets[context.target]?
  match Catalog.fixedMenu? opcode field with
  | some options => return [("options", options)]
  | none =>
    match Catalog.spriteMenu? field with
    | some special => return [("special", special), ("sprites", context.spriteOptions target field)]
    | none =>
      match field with
      | "VARIABLE" =>
        return [("variables",
          entityOptions ((project.variablesInScope context.target).map Prod.fst))]
      | "LIST" =>
        return [("lists", entityOptions ((project.listsInScope context.target).map Prod.fst))]
      | "BROADCAST_OPTION" => return [("messages", entityOptions project.messages)]
      | "COSTUME" => return [("costumes", sameOptions target.costumes)]
      | "BACKDROP" =>
        return [("backdrops", sameOptions ((project.stage?.map Target.costumes).getD []))]
      | "SOUND_MENU" => return [("sounds", sameOptions target.sounds)]
      | "PROPERTY" =>
        if opcode = "sensing_of" then
          let options ← context.propertyOptions? target.blocks block
          return [("properties", options)]
        else return []
      | _ => return []

def labels (options : List MenuOption) : List String :=
  options.map MenuOption.label

/-- Groups with at least one option. -/
def choicesOf (groups : List Group) : ChoiceSet :=
  groups.foldl
    (fun choices (name, options) =>
      if options.isEmpty then choices
      else choices.insert name ((choices.get? name).getD [] ++ labels options))
    ∅

/-- Choices for a field of a block, if any are known. -/
def resolve? (context : ChoiceContext) (opcode field current block : String) :
    Option ChoiceSet :=
  match context.editor.liveOptions? block field current with
  | some options => some ((∅ : ChoiceSet).insert "options" (labels options))
  | none => do
    let choices := choicesOf (← context.groups? opcode field block)
    if choices.entries.isEmpty then none else some choices

/-- The same choices as one list of options with their codes. -/
def options? (context : ChoiceContext) (opcode field current block : String) :
    Option (List MenuOption) :=
  match context.editor.liveOptions? block field current with
  | some options => some options
  | none => do
    let options := (← context.groups? opcode field block).flatMap Prod.snd
    if options.isEmpty then none else some options

end ChoiceContext

end BlockGraph
