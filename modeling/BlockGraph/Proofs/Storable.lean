import BlockGraph.Document.Reader
import BlockGraph.Proofs.Entities
import BlockGraph.Proofs.Requests
import BlockGraph.Proofs.Tidy.Edits

/-!
Storable projects: what a document cannot hold never arises. Blocks are tidy, entities of one kind
have different ids within a target, and the members that are carried along agree with the members
that are modelled. Every request keeps a project storable.
-/

set_option autoImplicit false

namespace BlockGraph

open Revision

/-- Entities of each kind have different ids, and a message stands for its name. -/
structure Target.Distinct (target : Target) : Prop where
  vars : (target.vars.map Entity.id).Nodup
  lists : (target.lists.map Entity.id).Nodup
  broadcasts : (target.broadcasts.map Entity.id).Nodup
  messages : ∀ message ∈ target.broadcasts, message.value = .text message.name

/-- Members that are carried along agree with those that are modelled. -/
structure Target.Carried (target : Target) : Prop where
  name : target.rest.get? "name" = some (.text target.name)
  isStage : target.rest.get? "isStage" = some (.bool target.isStage)
  costumes : target.costumes = Document.readNames (target.rest.get? "costumes")
  sounds : target.sounds = Document.readNames (target.rest.get? "sounds")
  unmodelled : ∀ key ∈ Document.modelledMembers, target.rest.get? key = none

structure Target.Storable (target : Target) : Prop where
  tidy : target.blocks.Tidy
  distinct : target.Distinct
  carried : target.Carried

structure Project.Storable (project : Project) : Prop where
  targets : project.Every Target.Storable
  unmodelled : project.rest.get? "targets" = none

namespace Target.Storable

variable {target : Target}

theorem carried_set (storable : target.Storable) (blocks : Arena)
    (vars lists broadcasts : List Entity) :
    ({ target with
      blocks := blocks, vars := vars, lists := lists, broadcasts := broadcasts } : Target).Carried :=
  have carried := storable.carried
  ⟨carried.name, carried.isStage, carried.costumes, carried.sounds, carried.unmodelled⟩

theorem setBlocks (storable : target.Storable) {blocks : Arena} (tidy : blocks.Tidy) :
    ({ target with blocks := blocks } : Target).Storable :=
  have distinct := storable.distinct
  ⟨tidy, ⟨distinct.vars, distinct.lists, distinct.broadcasts, distinct.messages⟩,
    storable.carried_set blocks _ _ _⟩

theorem add (storable : target.Storable) (kind : EntityKind) {entity : Entity}
    (isNew : entity.id ∉ target.entities.map Entity.id) : (kind.add entity target).Storable := by
  simp only [Target.entities, List.map_append, List.mem_append, not_or] at isNew
  have distinct := storable.distinct
  cases kind
  · exact ⟨storable.tidy, ⟨Entity.nodup_append distinct.vars isNew.1.1, distinct.lists,
      distinct.broadcasts, distinct.messages⟩, storable.carried_set _ _ _ _⟩
  · exact ⟨storable.tidy, ⟨distinct.vars, Entity.nodup_append distinct.lists isNew.1.2,
      distinct.broadcasts, distinct.messages⟩, storable.carried_set _ _ _ _⟩

theorem addMessage (storable : target.Storable) {id : String}
    (isNew : id ∉ target.entities.map Entity.id) (name : String) :
    ({ target with broadcasts := target.broadcasts ++ [⟨id, name, .text name⟩] } : Target).Storable := by
  simp only [Target.entities, List.map_append, List.mem_append, not_or] at isNew
  have distinct := storable.distinct
  have unique : ((target.broadcasts ++ [(⟨id, name, .text name⟩ : Entity)]).map Entity.id).Nodup :=
    Entity.nodup_append distinct.broadcasts isNew.2
  refine ⟨storable.tidy, ⟨distinct.vars, distinct.lists, unique, ?_⟩,
    storable.carried_set _ _ _ _⟩
  intro message member
  rcases List.mem_append.mp member with old | new
  · exact distinct.messages message old
  · rw [List.mem_singleton.mp new]

end Target.Storable

namespace Project

variable {α : Type} {project : Project}

theorem not_mem_entities_freshEntityId (stem : String) {target : Target}
    (member : target ∈ project.targets) :
    (project.freshEntityId stem).1 ∉ target.entities.map Entity.id := by
  have absent := Identifier.make_freshNumber_not_mem project.entityIds stem project.counter
  intro listed
  obtain ⟨entity, inside, same⟩ := List.mem_map.mp listed
  apply absent
  rw [entityIds, List.mem_map]
  exact ⟨entity, List.mem_flatMap.mpr ⟨target, member, inside⟩, same⟩

theorem Storable.modifyTarget (storable : project.Storable) {index : Nat}
    {change : Target → Target}
    (keeps : ∀ target, project.targets[index]? = some target → (change target).Storable) :
    (project.modifyTarget index change).Storable :=
  ⟨storable.targets.modifyTarget keeps, storable.unmodelled⟩

theorem maintains_onBlocks (index : Nat) {change : Revision Arena α}
    (keeps : Maintains Arena.Tidy change) : Maintains Storable (onBlocks index change) := by
  intro project storable
  rw [after_onBlocks]
  refine ⟨fun target found => ?_, fun _ => storable⟩
  have old := storable.targets.get found
  have put : ∀ blocks : Arena, blocks.Tidy → (project.putBlocks index blocks).Storable := by
    intro blocks tidy
    apply storable.modifyTarget
    intro other lookup
    exact (storable.targets.get lookup).setBlocks tidy
  exact (keeps target.blocks old.tidy).mono (fun _ => put) fun _ => put

theorem maintains_onEditingBlocks {change : Revision Arena α}
    (keeps : Maintains Arena.Tidy change) : Maintains Storable (onEditingBlocks change) :=
  maintains_editingIndex.bind fun index => maintains_onBlocks index keeps

theorem maintains_ensureBroadcast (name : String) : Maintains Storable (ensureBroadcast name) := by
  intro project storable
  have counted : (project.freshEntityId "broadcast").2.Storable :=
    ⟨storable.targets, storable.unmodelled⟩
  apply (announces_of_ensureBroadcast project name).mono
  · intro _ _ announces
    cases announces with
    | known => exact storable
    | created =>
      apply counted.modifyTarget
      intro target found
      have member : target ∈ project.targets := List.mem_of_getElem? found
      have fresh := not_mem_entities_freshEntityId "broadcast" member
      exact (counted.targets.get found).addMessage fresh name
  · rintro _ _ ⟨-, rfl⟩
    exact counted

theorem maintains_write (editor : Editor) (index : Nat) (slot : FieldWrite.Slot) (value : String) :
    Maintains Storable (FieldWrite.write editor index slot value) := by
  apply (maintains_onBlocks index (.stored slot.block)).bind
  intro owner
  apply Maintains.bind_get
  intro project storable
  refine Maintains.bind (.check _) (fun content => ?_) project storable
  apply Maintains.bind (.check _)
  intro _
  have binds : Maintains Storable (FieldWrite.contentField content) := by
    cases content with
    | plain text => exact .pure _
    | reference label id => exact .pure _
    | message name => exact (maintains_ensureBroadcast name).bind fun _ => .pure _
  apply binds.bind
  rintro ⟨field, reported⟩
  refine Maintains.bind (maintains_onBlocks index ?_) fun _ => .pure _
  refine Arena.maintains_update slot.block fun block tidy => ⟨?_, rfl⟩
  exact ⟨tidy.distinctInputs, tidy.valueInputs, tidy.placed⟩

theorem maintains_declare (kind : EntityKind) (name : String) (scope : Scope) :
    Maintains Storable (declare kind name scope) := by
  simp only [declare]
  split
  · exact .throw _
  apply Maintains.bind_get
  intro project storable
  rw [after_bind, after_check]
  refine ⟨?_, fun _ _ => storable⟩
  rintro ⟨index, owner⟩ -
  simp only
  split
  · exact storable
  simp only [after_bind, after_set, after_pure]
  have fresh : ∀ target ∈ project.targets,
      (project.freshEntityId kind.stem).1 ∉ target.entities.map Entity.id :=
    fun _ => not_mem_entities_freshEntityId kind.stem
  have nextStorable : (project.freshEntityId kind.stem).2.Storable :=
    ⟨storable.targets, storable.unmodelled⟩
  apply nextStorable.modifyTarget
  intro target found
  exact (nextStorable.targets.get found).add kind (fresh target (List.mem_of_getElem? found))

theorem maintains_selectSprite (name : String) : Maintains Storable (selectSprite name) := by
  apply Maintains.bind_get
  intro project storable
  split
  · exact storable
  · exact ⟨storable.targets, storable.unmodelled⟩

theorem maintains_selectStage : Maintains Storable selectStage := by
  apply Maintains.bind_get
  intro project storable
  split
  · exact ⟨storable.targets, storable.unmodelled⟩
  · exact storable

theorem stable_storable (editor : Editor) : Stable editor Storable where
  resolve index block name := maintains_onBlocks index (FieldWrite.maintains_resolve block name)
  write := maintains_write editor
  unplug index plug := maintains_onBlocks index (FieldWrite.maintains_unplug plug)
  place index project target _ listed :=
    maintains_onBlocks index (NewBlock.maintains_place project target listed)
  discard index id := maintains_onBlocks index (Arena.maintains_discard id)
  declare := maintains_declare
  connect source target placement :=
    maintains_onEditingBlocks (Arena.maintains_connect source target placement)
  detach id := maintains_onEditingBlocks (Arena.maintains_detach id)
  delete id := maintains_onEditingBlocks (Arena.maintains_delete id)
  selectSprite := maintains_selectSprite
  selectStage := maintains_selectStage

end Project

theorem Session.executeAll_storable {session : Session} (storable : session.project.Storable)
    (requests : List Request) : (session.executeAll requests).2.project.Storable :=
  executeAll_stable (Project.stable_storable session.editor) storable requests

end BlockGraph
