import BlockGraph.Proofs.Entities
import BlockGraph.Proofs.NewBlock
import BlockGraph.Proofs.Operations

/-!
What a request may reach. The blocks of one target are open to it, that of the editing target; apart
from them it can append one variable or list to the editing target or the stage, or one message to
the stage. All else is as it was, also where a request fails half-way.
-/

set_option autoImplicit false

namespace BlockGraph

open Revision

/-- Where a target keeps its entities. -/
inductive Registry where
  | declared (kind : EntityKind)
  | messages
deriving DecidableEq

namespace Registry

def entries : Registry → Target → List Entity
  | .declared kind => kind.pick
  | .messages => Target.broadcasts

/-- Appends an entity. -/
def add (registry : Registry) (entity : Entity) (target : Target) : Target :=
  match registry with
  | .declared kind => kind.add entity target
  | .messages => target.withMessage entity

end Registry

/-- An entity at the end of a registry of the target at `index`. -/
structure Addition where
  index : Nat
  registry : Registry
  entity : Entity

namespace Addition

/-- What is appended to a registry of the target at `index`. -/
def entitiesAt (added : Option Addition) (index : Nat) (registry : Registry) : List Entity :=
  (added.filter fun addition => addition.index = index ∧ addition.registry = registry).toList.map
    Addition.entity

/-- A message on the first stage. -/
def IsMessage (project : Project) (addition : Addition) : Prop :=
  addition.registry = .messages ∧ project.stageIndex? = some addition.index

/-- The places where a request of the given kind may append an entity. -/
def AllowedBy (project : Project) (addition : Addition) : Api → Prop
  | .addEntity isList =>
    addition.registry = .declared (if isList then .list else .variable) ∧
      (project.editing = some addition.index ∨ project.stageIndex? = some addition.index)
  | .setBlockField | .addBlock => addition.IsMessage project
  | _ => False

end Addition

/-- A target that has other blocks and more entities, and is else the same. -/
structure Target.Extends (before after : Target) (added : Registry → List Entity) : Prop where
  name : after.name = before.name
  isStage : after.isStage = before.isStage
  costumes : after.costumes = before.costumes
  sounds : after.sounds = before.sounds
  rest : after.rest = before.rest
  entries : ∀ registry : Registry, registry.entries after = registry.entries before ++ added registry

namespace Target.Extends

variable {before after : Target} {added : Registry → List Entity}

theorem refl (target : Target) : target.Extends target fun _ => [] :=
  ⟨rfl, rfl, rfl, rfl, rfl, fun _ => (List.append_nil _).symm⟩

theorem withBlocks (grown : before.Extends after added) (blocks : Arena) :
    before.Extends { after with blocks := blocks } added := by
  refine ⟨grown.name, grown.isStage, grown.costumes, grown.sounds, grown.rest, fun registry => ?_⟩
  rw [← grown.entries registry]
  rcases registry with (_ | _) | _ <;> rfl

/-- An entity is appended to one registry and to no other. -/
theorem add (grown : before.Extends after fun _ => []) (registry : Registry) (entity : Entity) :
    before.Extends (registry.add entity after) fun other =>
      if registry = other then [entity] else [] := by
  have kept : ∀ other : Registry, other.entries before = other.entries after := by
    intro other
    rw [grown.entries other, List.append_nil]
  have same : after.Extends (registry.add entity after) fun other =>
      if registry = other then [entity] else [] := by
    rcases registry with (_ | _) | _ <;> refine ⟨rfl, rfl, rfl, rfl, rfl, fun other => ?_⟩ <;>
      rcases other with (_ | _) | _ <;> simp [Registry.entries, Registry.add, EntityKind.pick,
        EntityKind.add, Target.withMessage]
  refine ⟨same.name.trans grown.name, same.isStage.trans grown.isStage,
    same.costumes.trans grown.costumes, same.sounds.trans grown.sounds,
    same.rest.trans grown.rest, fun other => ?_⟩
  rw [same.entries other, kept other]

end Target.Extends

/-- A project with at most one more entity, and with other blocks in the editing target alone. -/
structure Project.Extends (before after : Project) (added : Option Addition) : Prop where
  rest : after.rest = before.rest
  length : after.targets.length = before.targets.length
  targets : ∀ (index : Nat) (old new : Target), before.targets[index]? = some old →
    after.targets[index]? = some new → old.Extends new (Addition.entitiesAt added index)
  blocks : ∀ (index : Nat) (old new : Target), before.targets[index]? = some old →
    after.targets[index]? = some new → before.editing ≠ some index → new.blocks = old.blocks

namespace Project.Extends

variable {before after : Project} {added : Option Addition} {index : Nat}

theorem refl (project : Project) : project.Extends project none where
  rest := rfl
  length := rfl
  targets index old new stood stands := by
    obtain rfl : old = new := Option.some.inj (stood.symm.trans stands)
    exact .refl old
  blocks index old new stood stands _ := by
    obtain rfl : old = new := Option.some.inj (stood.symm.trans stands)
    rfl

/-- Only the targets and the data that is carried along count. -/
theorem of_targets {next : Project} (grown : before.Extends after added)
    (targets : next.targets = after.targets) (rest : next.rest = after.rest) :
    before.Extends next added := by
  refine ⟨rest.trans grown.rest, ?_, ?_, ?_⟩
  · rw [targets]
    exact grown.length
  · rw [targets]
    exact grown.targets
  · rw [targets]
    exact grown.blocks

/-- Changing one target is a matter of that target. -/
theorem modifyTarget {more : Option Addition} (grown : before.Extends after added)
    {change : Target → Target}
    (others : ∀ other, other ≠ index →
      Addition.entitiesAt more other = Addition.entitiesAt added other)
    (extended : ∀ old new : Target, old.Extends new (Addition.entitiesAt added index) →
      old.Extends (change new) (Addition.entitiesAt more index))
    (blocks : before.editing ≠ some index → ∀ new, (change new).blocks = new.blocks) :
    before.Extends (after.modifyTarget index change) more := by
  refine ⟨grown.rest, (List.length_modify ..).trans grown.length, ?_, ?_⟩
  · intro other old new stood stands
    rw [get_modifyTarget] at stands
    split at stands
    · rename_i same
      subst same
      obtain ⟨kept, found, rfl⟩ := Option.map_eq_some_iff.mp stands
      exact extended old kept (grown.targets index old kept stood found)
    · rename_i apart
      rw [others other (Ne.symm apart)]
      exact grown.targets other old new stood stands
  · intro other old new stood stands elsewhere
    rw [get_modifyTarget] at stands
    split at stands
    · rename_i same
      subst same
      obtain ⟨kept, found, rfl⟩ := Option.map_eq_some_iff.mp stands
      rw [blocks elsewhere kept]
      exact grown.blocks index old kept stood found elsewhere
    · exact grown.blocks other old new stood stands elsewhere

theorem putBlocks (grown : before.Extends after added) (edited : before.editing = some index)
    (blocks : Arena) : before.Extends (after.putBlocks index blocks) added :=
  grown.modifyTarget (fun _ _ => rfl) (fun _ _ extended => extended.withBlocks blocks)
    fun elsewhere => absurd edited elsewhere

theorem add (grown : before.Extends after none) (index : Nat) (registry : Registry)
    (entity : Entity) :
    before.Extends (after.modifyTarget index (registry.add entity))
      (some ⟨index, registry, entity⟩) := by
  apply grown.modifyTarget
  · intro other apart
    funext registry
    simp [Addition.entitiesAt, Ne.symm apart]
  · intro old new extended
    have one : Addition.entitiesAt (some ⟨index, registry, entity⟩) index =
        fun other => if registry = other then [entity] else [] := by
      funext other
      by_cases same : registry = other <;> simp [Addition.entitiesAt, Option.filter, same]
    rw [one]
    exact Target.Extends.add extended registry entity
  · intro _ target
    cases registry with
    | declared kind => exact kind.blocks_add entity target
    | messages => rfl

end Project.Extends

namespace Project

variable {α : Type} {start project : Project} {added : Option Addition} {editor : Editor}
  {may : Addition → Prop}

/-- A state on the way of an operation that keeps the editing target. -/
structure Inside (start project : Project) (added : Option Addition) : Prop where
  grown : start.Extends project added
  editing : project.editing = start.editing
  stage : project.stageIndex? = start.stageIndex?

/-- A state on the way, with nothing appended but what is allowed. -/
def Within (may : Addition → Prop) (start project : Project) : Prop :=
  ∃ added, start.Inside project added ∧ ∀ addition ∈ added, may addition

theorem Inside.refl (project : Project) : project.Inside project none :=
  ⟨.refl project, rfl, rfl⟩

theorem Inside.within (inside : start.Inside project none) : start.Within may project :=
  ⟨none, inside, fun _ member => nomatch member⟩

theorem Inside.counted {counter : Nat} (inside : start.Inside project added) :
    start.Inside { project with counter := counter } added :=
  ⟨inside.grown.of_targets rfl rfl, inside.editing, inside.stage⟩

theorem Inside.add (inside : start.Inside project none) (index : Nat) (registry : Registry)
    (entity : Entity) :
    start.Inside (project.modifyTarget index (registry.add entity))
      (some ⟨index, registry, entity⟩) := by
  refine ⟨inside.grown.add index registry entity, inside.editing, ?_⟩
  rw [← inside.stage]
  apply stageIndex?_modifyTarget
  intro target
  cases registry with
  | declared kind => exact kind.isStage_add entity target
  | messages => exact target.isStage_withMessage entity

theorem Inside.putBlocks {index : Nat} (inside : start.Inside project added)
    (edited : start.editing = some index) (blocks : Arena) :
    start.Inside (project.putBlocks index blocks) added := by
  refine ⟨inside.grown.putBlocks edited blocks, inside.editing, ?_⟩
  rw [← inside.stage]
  exact stageIndex?_modifyTarget fun _ => rfl

theorem inside_onBlocks {index : Nat} (edited : start.editing = some index)
    (change : Revision Arena α) : Maintains (start.Inside · added) (onBlocks index change) := by
  intro project inside
  rw [after_onBlocks]
  refine ⟨fun target found => ?_, fun _ => inside⟩
  rw [after_same_iff]
  exact inside.putBlocks edited _

theorem within_onBlocks {index : Nat} (edited : start.editing = some index)
    (change : Revision Arena α) : Maintains (start.Within may) (onBlocks index change) := by
  rintro project ⟨added, inside, allowed⟩
  apply (inside_onBlocks edited change project inside).mono
  · intro _ next inside
    exact ⟨added, inside, allowed⟩
  · intro _ next inside
    exact ⟨added, inside, allowed⟩

/-- A message that is missing is appended to the first stage. -/
theorem within_ensureBroadcast (inside : start.Inside project none) (name : String) :
    After (ensureBroadcast name) project
      (fun _ => start.Within (·.IsMessage start)) fun _ => start.Within (·.IsMessage start) := by
  have counted : start.Inside (project.freshEntityId "broadcast").2 none := inside.counted
  apply (announces_of_ensureBroadcast project name).mono
  · intro _ _ announces
    cases announces with
    | known => exact inside.within
    | @created stage _ isFirst =>
      refine ⟨_, counted.add stage .messages _, fun addition member => ?_⟩
      cases member
      exact ⟨rfl, inside.stage ▸ isFirst⟩
  · rintro _ _ ⟨-, rfl⟩
    exact counted.within

theorem within_contentField (inside : start.Inside project none) (content : FieldWrite.Content) :
    After (FieldWrite.contentField content) project
      (fun _ => start.Within (·.IsMessage start)) fun _ => start.Within (·.IsMessage start) := by
  cases content with
  | plain text => exact inside.within
  | reference label id => exact inside.within
  | message name =>
    rw [FieldWrite.contentField, after_bind]
    exact within_ensureBroadcast inside name

theorem within_write {index : Nat} (edited : start.editing = some index) (slot : FieldWrite.Slot)
    (value : String) (inside : start.Inside project none) :
    After (FieldWrite.write editor index slot value) project
      (fun _ => start.Within (·.IsMessage start)) fun _ => start.Within (·.IsMessage start) := by
  rw [FieldWrite.write, after_bind]
  refine (inside_onBlocks edited _ project inside).mono ?_ fun _ _ => Inside.within
  intro owner project inside
  simp only [after_bind, after_get, after_check]
  refine ⟨fun content _ => ⟨fun _ _ => ?_, fun _ _ => inside.within⟩, fun _ _ => inside.within⟩
  refine (within_contentField inside content).mono ?_ fun _ _ => id
  intro field next within
  exact within_onBlocks edited _ next within

theorem within_setField (editor : Editor) (block name value : String)
    (inside : start.Inside project none) :
    After (setField editor block name value) project
      (fun _ => start.Within (·.IsMessage start)) fun _ => start.Within (·.IsMessage start) := by
  rw [setField, after_bind, after_editingIndex]
  refine ⟨fun index target required => ?_, fun _ _ => inside.within⟩
  have edited : start.editing = some index := by
    rw [← inside.editing]
    exact (requireEditing_eq_ok required).1
  rw [after_bind]
  refine (inside_onBlocks edited _ project inside).mono ?_ fun _ _ => Inside.within
  intro slot project inside
  rw [after_tryCatch]
  refine (within_write edited slot value inside).mono (fun _ _ => id) ?_
  intro fault next within
  cases slot.plug with
  | none => exact within
  | some plug => exact (within_onBlocks edited _).bind (fun _ => .throw fault) next within

/-- A single binding is a single write. -/
theorem within_bindings {bindings : List NewBlock.Binding} (few : bindings.length ≤ 1) (id : String)
    (inside : start.Inside project none) :
    After (bindings.forM fun (field, name) => do
        let _ ← setField editor id field name) project
      (fun _ => start.Within (·.IsMessage start)) fun _ => start.Within (·.IsMessage start) := by
  match bindings, few with
  | [], _ => exact inside.within
  | [(field, name)], _ =>
    simp only [List.forM, after_bind, after_pure]
    exact within_setField editor id field name inside

/-- A new block has at most one field to bind, so at most one message is appended. -/
theorem within_addBlock (editor : Editor) (project : Project) (opcode : String) (creation : Json) :
    After (addBlock editor opcode creation) project
      (fun _ => project.Within (·.IsMessage project)) fun _ =>
        project.Within (·.IsMessage project) := by
  have inside := Inside.refl project
  rw [addBlock, after_bind, after_get, after_bind, after_check]
  refine ⟨?_, fun _ _ => inside.within⟩
  rintro ⟨index, target⟩ required
  have edited := (requireEditing_eq_ok required).1
  simp only
  cases known : Catalog.spec? opcode with
  | none => exact inside.within
  | some spec =>
    simp only [after_bind]
    rw [after_check]
    refine ⟨fun requested asked => ?_, fun _ _ => inside.within⟩
    have few := NewBlock.bindings_length_le_one (List.mem_of_find?_eq_some known) asked project index
    refine (inside_onBlocks edited _ project inside).mono ?_ fun _ _ => Inside.within
    intro added next inside
    rw [after_tryCatch]
    refine (within_bindings few added inside).mono (fun _ _ => id) ?_
    intro fault last within
    exact (within_onBlocks edited _).bind (fun _ => .throw fault) last within

theorem within_declare (project : Project) (kind : EntityKind) (name : String) (scope : Scope) :
    After (declare kind name scope) project
      (fun _ => project.Within (·.AllowedBy project (.addEntity (kind = .list))))
      fun _ => project.Within (·.AllowedBy project (.addEntity (kind = .list))) := by
  have inside := Inside.refl project
  simp only [declare]
  split
  · exact inside.within
  simp only [after_bind, after_get, after_check]
  refine ⟨?_, fun _ _ => inside.within⟩
  rintro ⟨index, owner⟩ owned
  split
  · exact inside.within
  · have counted : project.Inside (project.freshEntityId kind.stem).2 none := inside.counted
    simp only [after_bind, after_set, after_pure]
    refine ⟨_, counted.add index (.declared kind) _, fun addition member => ?_⟩
    cases member
    refine ⟨?_, (declarationOwner_eq_ok owned).2⟩
    cases kind <;> rfl

theorem within_onEditingBlocks (project : Project) (change : Revision Arena α) :
    After (onEditingBlocks change) project (fun _ => project.Within may)
      fun _ => project.Within may := by
  have inside := Inside.refl project
  rw [onEditingBlocks, after_bind, after_editingIndex]
  refine ⟨fun index target required => ?_, fun _ _ => inside.within⟩
  exact within_onBlocks (requireEditing_eq_ok required).1 change project inside.within

theorem extends_selectSprite (project : Project) (name : String) :
    After (selectSprite name) project (fun _ next => project.Extends next none)
      fun _ next => project.Extends next none := by
  rw [selectSprite, after_bind, after_get]
  split
  · exact .refl project
  · exact (Extends.refl project).of_targets rfl rfl

theorem extends_selectStage (project : Project) :
    After selectStage project (fun _ next => project.Extends next none)
      fun _ next => project.Extends next none := by
  rw [selectStage, after_bind, after_get]
  split
  · exact (Extends.refl project).of_targets rfl rfl
  · exact .refl project

end Project

/-- An operation reaches the blocks of the editing target, and appends what its kind may append. -/
theorem Operation.extends_run (operation : Operation) (editor : Editor) (project : Project) :
    ∃ added, project.Extends ((operation.change editor).final project) added ∧
      ∀ addition ∈ added, addition.AllowedBy project operation.api := by
  have of_within {α : Type} {revision : Revision Project α}
      (within : After revision project
        (fun _ => project.Within (·.AllowedBy project operation.api))
        fun _ => project.Within (·.AllowedBy project operation.api)) :
      ∃ added, project.Extends (((fun _ => ()) <$> revision).final project) added ∧
        ∀ addition ∈ added, addition.AllowedBy project operation.api := by
    obtain ⟨added, inside, allowed⟩ := after_same_iff.mp within
    rw [final_map]
    exact ⟨added, inside.grown, allowed⟩
  have of_none {revision : Revision Project String}
      (grown : After revision project (fun _ next => project.Extends next none)
        fun _ next => project.Extends next none) :
      ∃ added, project.Extends (((fun _ => ()) <$> revision).final project) added ∧
        ∀ addition ∈ added, addition.AllowedBy project operation.api := by
    rw [final_map]
    exact ⟨none, after_same_iff.mp grown, fun _ member => nomatch member⟩
  cases operation with
  | setField block name value =>
    exact of_within (Project.within_setField editor block name value (.refl project))
  | addBlock opcode creation =>
    exact of_within (Project.within_addBlock editor project opcode creation)
  | declare kind name scope => exact of_within (Project.within_declare project kind name scope)
  | connect source target placement =>
    exact of_within (Project.within_onEditingBlocks project _)
  | detach id => exact of_within (Project.within_onEditingBlocks project _)
  | delete id => exact of_within (Project.within_onEditingBlocks project _)
  | selectSprite name => exact of_none (Project.extends_selectSprite project name)
  | selectStage => exact of_none (Project.extends_selectStage project)

/-- A request keeps to the editing target, whether it succeeds or fails. The data of the project that
is carried along, the number of its targets and all of a target but its blocks and entities stay; so
do the blocks of every other target. Entities stay where they are, and at most one is appended: a
variable or a list to the editing target or the first stage by a request that declares one, or a
message to the first stage by a request that writes a field or adds a block. -/
theorem Session.execute_extends (session : Session) (request : Request) :
    ∃ added : Option Addition,
      session.project.Extends (session.execute request).2.project added ∧
      ∀ addition ∈ added, ∃ api, Api.ofName (Text.trim request.api) = .ok api ∧
        addition.AllowedBy session.project api := by
  rcases session.execute_ran request with same | ⟨operation, named, ran⟩
  · rw [same]
    exact ⟨none, .refl _, fun _ member => nomatch member⟩
  · rw [ran]
    obtain ⟨added, grown, allowed⟩ := operation.extends_run session.editor session.project
    exact ⟨added, grown, fun addition member => ⟨operation.api, named, allowed addition member⟩⟩

end BlockGraph
