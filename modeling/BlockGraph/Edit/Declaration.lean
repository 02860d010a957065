import BlockGraph.Project
import BlockGraph.Text.Blank

/-!
Declaring variables and lists, and choosing the target that edits apply to. A name is free for a
sprite if neither the sprite nor the stage has it, and for the stage if no target has it.
-/

set_option autoImplicit false

namespace BlockGraph

inductive EntityKind where
  | variable
  | list
deriving DecidableEq, Repr

namespace EntityKind

def name : EntityKind → String
  | .variable => "variable"
  | .list => "list"

def stem : EntityKind → String
  | .variable => "var"
  | .list => "list"

def pick : EntityKind → Target → List Entity
  | .variable => Target.vars
  | .list => Target.lists

def initialValue : EntityKind → Json
  | .variable => .ofNat 0
  | .list => .array []

def add (kind : EntityKind) (entity : Entity) (target : Target) : Target :=
  match kind with
  | .variable => { target with vars := target.vars ++ [entity] }
  | .list => { target with lists := target.lists ++ [entity] }

end EntityKind

structure Declared where
  id : String
  name : String
  scope : Scope
deriving DecidableEq

namespace Declared

def toJson (declared : Declared) : Json :=
  .ofMembers [("id", .text declared.id), ("name", .text declared.name),
    ("scope", .text declared.scope.name)]

end Declared

namespace Project

/-- Names that a new entity of the target at `index` must not have. -/
def takenNames (project : Project) (kind : EntityKind) (index : Nat) (isStage : Bool) :
    List String :=
  let entities :=
    if isStage then project.targets.flatMap kind.pick
    else (project.inScope index kind.pick).map Prod.fst
  entities.map Entity.name

/-- The target that a declaration of the given scope goes to. -/
def declarationOwner (project : Project) (scope : Scope) : Except Fault (Nat × Target) := do
  let (index, target) ← project.requireEditing
  match scope with
  | .sprite => return (index, target)
  | .stage =>
    match project.stageIndex?, project.stage? with
    | some stageIndex, some stage => return (stageIndex, stage)
    | _, _ => throw .noStageForEntity

def declare (kind : EntityKind) (name : String) (scope : Scope) : Revision Project Declared := do
  let name := Text.trim name
  if name = "" then throw (.required "name")
  let project ← get
  let (index, owner) ← Revision.check (project.declarationOwner scope)
  if (project.takenNames kind index owner.isStage).contains name then
    throw (.nameTaken kind.name name)
  let (id, project) := project.freshEntityId kind.stem
  set (project.modifyTarget index (kind.add ⟨id, name, kind.initialValue⟩))
  return ⟨id, name, owner.scope⟩

/-- Chooses the first sprite of that name. -/
def selectSprite (name : String) : Revision Project String := do
  let project ← get
  match project.targets.findIdx? fun target => !target.isStage && target.name = name with
  | none => throw (.spriteNotFound name)
  | some index =>
    set { project with editing := some index }
    return name

/-- Chooses the first stage, and gives its name. -/
def selectStage : Revision Project String := do
  let project ← get
  match project.stageIndex?, project.stage? with
  | some index, some stage =>
    set { project with editing := some index }
    return stage.name
  | _, _ => throw .noStageToSelect

end Project

end BlockGraph
