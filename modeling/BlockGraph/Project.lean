import BlockGraph.Arena
import BlockGraph.Fault

/-!
Projects: a list of targets, of which one may be edited. A target is the stage or a sprite, and has
its own block graph, variables and lists; messages belong to the stage.
-/

set_option autoImplicit false

namespace BlockGraph

/-- A variable, a list or a message. -/
structure Entity where
  id : String
  name : String
  value : Json
deriving DecidableEq

inductive Scope where
  | sprite
  | stage
deriving DecidableEq, Repr

namespace Scope

def name : Scope → String
  | .sprite => "sprite"
  | .stage => "all"

def parse (text : String) : Except Fault Scope :=
  match text with
  | "sprite" => .ok .sprite
  | "all" => .ok .stage
  | _ => .error .badScope

end Scope

structure Target where
  name : String
  isStage : Bool
  blocks : Arena := {}
  vars : List Entity := []
  lists : List Entity := []
  broadcasts : List Entity := []
  costumes : List String := []
  sounds : List String := []
  /-- Members of the document that are carried along. -/
  rest : Dict Json := ∅
deriving DecidableEq

namespace Target

def scope (target : Target) : Scope :=
  if target.isStage then .stage else .sprite

def entities (target : Target) : List Entity :=
  target.vars ++ target.lists ++ target.broadcasts

end Target

structure Project where
  targets : List Target
  /-- Index of the target that edits apply to; it need not be in range. -/
  editing : Option Nat
  rest : Dict Json := ∅
  /-- Number of the last generated entity id. -/
  counter : Nat := 0
deriving DecidableEq

namespace Project

/-- Editing starts with the first sprite, or with the stage when there is none. -/
def ofTargets (targets : List Target) (rest : Dict Json) : Project where
  targets := targets
  editing := (targets.findIdx? fun target => !target.isStage).or
    (targets.findIdx? Target.isStage)
  rest := rest

def stageIndex? (project : Project) : Option Nat :=
  project.targets.findIdx? Target.isStage

def stage? (project : Project) : Option Target :=
  project.targets.find? Target.isStage

def editingTarget? (project : Project) : Option Target :=
  project.editing.bind fun index => project.targets[index]?

/-- The editing target with its index. -/
def requireEditing (project : Project) : Except Fault (Nat × Target) :=
  match project.editing with
  | none => .error .noEditingTarget
  | some index =>
    match project.targets[index]? with
    | none => .error (.editingTargetMissing index)
    | some target => .ok (index, target)

def findTarget? (project : Project) (name : String) : Option Nat :=
  project.targets.findIdx? fun target => target.name = name

def spriteNames (project : Project) : List String :=
  (project.targets.filter fun target => !target.isStage).map Target.name

/-- Changes the target at `index`, if there is one. -/
def modifyTarget (project : Project) (index : Nat) (change : Target → Target) : Project :=
  { project with targets := project.targets.modify index change }

/-- Entities that a target sees: its own, and for a sprite those of the stage after them. -/
def inScope (project : Project) (index : Nat) (pick : Target → List Entity) :
    List (Entity × Scope) :=
  let global := (project.stage?.map pick).getD []
  match project.targets[index]? with
  | none => global.map (·, .stage)
  | some target =>
    let own := (pick target).map (·, target.scope)
    if target.isStage then own else own ++ global.map (·, .stage)

def variablesInScope (project : Project) (index : Nat) : List (Entity × Scope) :=
  project.inScope index Target.vars

def listsInScope (project : Project) (index : Nat) : List (Entity × Scope) :=
  project.inScope index Target.lists

def messages (project : Project) : List Entity :=
  (project.stage?.map Target.broadcasts).getD []

def broadcastByName? (project : Project) (name : String) : Option Entity :=
  project.messages.find? fun message => message.name = name

/-- Ids of all variables, lists and messages. -/
def entityIds (project : Project) : List String :=
  (project.targets.flatMap Target.entities).map Entity.id

/-- A new entity id that starts with `stem`. -/
def freshEntityId (project : Project) (stem : String) : String × Project :=
  let number := Identifier.freshNumber project.entityIds stem project.counter
  (Identifier.make stem number, { project with counter := number })

end Project

/-- A change of a value of type `σ` that may fail. A failure keeps what was changed before it. -/
abbrev Revision (σ : Type) := EStateM Fault σ

namespace Revision

variable {σ α : Type}

/-- A check that changes nothing. -/
def check (outcome : Except Fault α) : Revision σ α :=
  match outcome with
  | .ok value => pure value
  | .error fault => throw fault

/-- A lookup that fails where the graph is damaged. -/
def follow (outcome : Except Damage α) : Revision σ α :=
  check (Damage.orFault outcome)

end Revision

namespace Project

def editingIndex : Revision Project Nat := do
  let (index, _) ← Revision.check (← get).requireEditing
  return index

/-- Applies a change to the blocks of one target. -/
def onBlocks {α : Type} (index : Nat) (change : Revision Arena α) : Revision Project α :=
  fun project =>
    match project.targets[index]? with
    | none => .error (.editingTargetMissing index) project
    | some target =>
      let put (blocks : Arena) := project.modifyTarget index ({ · with blocks := blocks })
      match change target.blocks with
      | .ok value blocks => .ok value (put blocks)
      | .error fault blocks => .error fault (put blocks)

/-- Id of the message called `name`, which is added to the stage when there is none. The number of a
new id is spent even when there is no stage to hold the message. -/
def ensureBroadcast (name : String) : Revision Project String := do
  match (← get).broadcastByName? name with
  | some message => return message.id
  | none =>
    let (id, project) := (← get).freshEntityId "broadcast"
    set project
    match project.stageIndex? with
    | none => throw (.damaged (.noStageForMessage name))
    | some index =>
      modify (·.modifyTarget index fun stage =>
        { stage with broadcasts := stage.broadcasts ++ [⟨id, name, .text name⟩] })
      return id

end Project

end BlockGraph
