import BlockGraph.Proofs.Changes
import BlockGraph.Proofs.WellLinked.Sessions

/-!
References of fields to entities. A field that names a variable, a list or a message keeps the name of
the entity beside its id, and without an editor whose menus offer something else the two stay those of
an entity that the target sees.
-/

set_option autoImplicit false

namespace BlockGraph

namespace Catalog

/-- Fields that name entities have no menu of their own. -/
theorem fixedMenu?_reference {opcode field : String} (isReference : isReferenceField field = true) :
    fixedMenu? opcode field = none := by
  have others : ∀ menu ∈ fixedMenus, isReferenceField menu.field = false := by decide +kernel
  rw [fixedMenu?, Option.map_eq_none_iff, List.find?_eq_none]
  intro menu member hit
  simp only [Bool.and_eq_true, decide_eq_true_eq] at hit
  rw [← hit.1, others menu member] at isReference
  cases isReference

theorem spriteMenu?_reference {field : String} (isReference : isReferenceField field = true) :
    spriteMenu? field = none := by
  have others : ∀ menu ∈ spriteMenus, isReferenceField menu.1 = false := by decide +kernel
  rw [spriteMenu?, Option.map_eq_none_iff, List.find?_eq_none]
  intro menu member hit
  rw [← of_decide_eq_true hit, others menu member] at isReference
  cases isReference

theorem isReferenceField_cases {field : String} (isReference : isReferenceField field = true) :
    field = "VARIABLE" ∨ field = "LIST" ∨ field = "BROADCAST_OPTION" := by
  simpa [isReferenceField, or_assoc] using isReference

end Catalog

namespace Project

variable {project next : Project} {index : Nat} {name : String} {field : Field} {target : Target}

/-- Entities that a field may name in the target at `index`. -/
def referents (project : Project) (index : Nat) : String → List Entity
  | "VARIABLE" => (project.variablesInScope index).map Prod.fst
  | "LIST" => (project.listsInScope index).map Prod.fst
  | "BROADCAST_OPTION" => project.messages
  | _ => []

/-- If the field carries an id, then its value and the id are those of an entity that it may name. -/
def Refers (project : Project) (index : Nat) (name : String) (field : Field) : Prop :=
  Catalog.isReferenceField name = true → ∀ id, field.id = some id →
    ∃ entity ∈ project.referents index name, entity.id = id ∧ entity.name = field.value

/-- Every reference leads to an entity. -/
def Grounded (project : Project) : Prop :=
  ∀ (index : Nat) (target : Target), project.targets[index]? = some target →
    ∀ id block, target.blocks.get? id = some block →
      ∀ name field, block.fields.get? name = some field → project.Refers index name field

theorem refers_plain (plain : field.id = none) : project.Refers index name field := by
  intro _ id carried
  rw [plain] at carried
  cases carried

theorem Refers.mono (refers : project.Refers index name field)
    (more : project.referents index name ⊆ next.referents index name) :
    next.Refers index name field := by
  intro isReference id carried
  obtain ⟨entity, member, same⟩ := refers isReference id carried
  exact ⟨entity, more member, same⟩

theorem referents_modifyTarget {change : Target → Target}
    (same : ∀ target, (change target).isStage = target.isStage)
    (grows : ∀ target, target.vars ⊆ (change target).vars ∧ target.lists ⊆ (change target).lists ∧
      target.broadcasts ⊆ (change target).broadcasts) (other : Nat) (name : String) :
    project.referents other name ⊆ (project.modifyTarget index change).referents other name := by
  unfold referents
  split
  · exact visible_subset_modifyTarget same (fun target => (grows target).1) other
  · exact visible_subset_modifyTarget same (fun target => (grows target).2.1) other
  · exact globals_subset_modifyTarget same fun target => (grows target).2.2
  · exact List.Subset.refl _

theorem referents_of_targets (same : next.targets = project.targets) (index : Nat) (name : String) :
    next.referents index name = project.referents index name := by
  simp only [referents, variablesInScope, listsInScope, inScope, messages, stage?, same]

/-- Without an editor, what is offered for a reference field are the entities that the field may name. -/
theorem options?_reference (found : project.targets[index]? = some target)
    (isReference : Catalog.isReferenceField name = true) (opcode current block : String) :
    ((⟨project, index, .headless⟩ : ChoiceContext).options? opcode name current block).getD [] =
      ChoiceContext.entityOptions (project.referents index name) := by
  have quiet : Editor.headless.liveOptions? block name current = none := rfl
  have known : ∃ group, (⟨project, index, .headless⟩ : ChoiceContext).groups? opcode name block =
      some [(group, ChoiceContext.entityOptions (project.referents index name))] := by
    simp only [ChoiceContext.groups?, found, Option.bind_eq_bind, Option.bind_some,
      Catalog.fixedMenu?_reference isReference, Catalog.spriteMenu?_reference isReference]
    rcases Catalog.isReferenceField_cases isReference with rfl | rfl | rfl
    · exact ⟨_, rfl⟩
    · exact ⟨_, rfl⟩
    · exact ⟨_, rfl⟩
  obtain ⟨group, known⟩ := known
  simp only [ChoiceContext.options?, quiet, known, Option.bind_eq_bind, Option.bind_some,
    List.flatMap_singleton]
  split
  · rename_i none
    exact (List.isEmpty_iff.mp none).symm
  · rfl

/-- Without an editor nothing else is offered. -/
theorem refers_option (found : project.targets[index]? = some target) {opcode current block : String}
    {option : MenuOption}
    (offered : option ∈
      ((⟨project, index, .headless⟩ : ChoiceContext).options? opcode name current block).getD []) :
    project.Refers index name (.reference option.label option.code) := by
  rintro isReference _ ⟨⟩
  rw [options?_reference found isReference] at offered
  obtain ⟨entity, member, rfl⟩ := List.mem_map.mp offered
  exact ⟨entity, member, rfl, rfl⟩

theorem Grounded.of_targets (grounded : project.Grounded) (same : next.targets = project.targets) :
    next.Grounded := by
  intro index target found id block stored name field written
  rw [same] at found
  apply (grounded index target found id block stored name field written).mono
  rw [referents_of_targets same]
  exact List.Subset.refl _

/-- The fields of one target may be others, as long as they refer to entities. -/
theorem Grounded.putBlocks (grounded : project.Grounded) {blocks : Arena}
    (refers : ∀ id block, blocks.get? id = some block →
      ∀ name field, block.fields.get? name = some field → project.Refers index name field) :
    (project.putBlocks index blocks).Grounded := by
  have more : ∀ other name,
      project.referents other name ⊆ (project.putBlocks index blocks).referents other name := by
    apply referents_modifyTarget
    · intro _
      rfl
    · intro _
      exact ⟨List.Subset.refl _, List.Subset.refl _, List.Subset.refl _⟩
  intro other target found id block stored name field written
  rw [Project.putBlocks, get_modifyTarget] at found
  split at found
  · rename_i same
    subst same
    obtain ⟨old, -, rfl⟩ := Option.map_eq_some_iff.mp found
    exact (refers id block stored name field written).mono (more index name)
  · exact (grounded other target found id block stored name field written).mono (more other name)

/-- More entities leave no reference without one. -/
theorem Grounded.modifyTarget (grounded : project.Grounded) {change : Target → Target}
    (same : ∀ target, (change target).isStage = target.isStage ∧ (change target).blocks = target.blocks)
    (grows : ∀ target, target.vars ⊆ (change target).vars ∧ target.lists ⊆ (change target).lists ∧
      target.broadcasts ⊆ (change target).broadcasts) :
    (project.modifyTarget index change).Grounded := by
  intro other target found id block stored name field written
  have more : project.referents other name ⊆
      (project.modifyTarget index change).referents other name :=
    referents_modifyTarget (fun target => (same target).1) grows other name
  rw [get_modifyTarget] at found
  split at found
  · obtain ⟨old, lookup, rfl⟩ := Option.map_eq_some_iff.mp found
    rw [(same old).2] at stored
    exact (grounded other old lookup id block stored name field written).mono more
  · exact (grounded other target found id block stored name field written).mono more

theorem grounded_change (grounded : project.Grounded)
    (change : Change .headless project next) : next.Grounded := by
  cases change with
  | tuned same => exact grounded.of_targets same
  | @rebuilt index target blocks found inherits =>
    apply grounded.putBlocks
    intro id block stored name field written
    rcases inherits id block stored with plain | ⟨old, stood, same⟩
    · exact refers_plain (plain name field written)
    · rw [same] at written
      exact grounded index target found id old stood name field written
  | @wrote index target changed name field found offers =>
    have fits : project.Refers index name field := by
      cases offers with
      | plain text => exact refers_plain rfl
      | option offered => exact refers_option found offered
      | message named member =>
        rintro - _ ⟨⟩
        rw [named]
        exact ⟨_, member, rfl, rfl⟩
    apply grounded.putBlocks
    intro id block stored other written lookup
    have before := grounded index target found id
    rw [Arena.get?_modifyBlock] at stored
    split at stored
    · obtain ⟨old, stood, rfl⟩ := Option.map_eq_some_iff.mp stored
      rw [Dict.get?_insert] at lookup
      split at lookup
      · rename_i same
        rw [← same, ← Option.some.inj lookup]
        exact fits
      · exact before old stood other written lookup
    · exact before block stored other written lookup
  | @declared index owner kind entity found free fresh =>
    apply grounded.modifyTarget
    · intro target
      exact ⟨kind.isStage_add entity target, kind.blocks_add entity target⟩
    · intro target
      cases kind
      · exact ⟨List.subset_append_left _ _, List.Subset.refl _, List.Subset.refl _⟩
      · exact ⟨List.Subset.refl _, List.subset_append_left _ _, List.Subset.refl _⟩
  | @announced index message isFirst free fresh =>
    apply grounded.modifyTarget
    · intro target
      exact ⟨rfl, rfl⟩
    · intro target
      exact ⟨List.Subset.refl _, List.Subset.refl _, List.subset_append_left _ _⟩

end Project

namespace Session

/-- Whatever is requested without an editor, the references of fields lead to entities of the same id
and name. -/
theorem references_of_requests (session : Session) (headless : session.editor = .headless)
    (grounded : session.project.Grounded) (requests : List Request) :
    (session.executeAll requests).2.project.Grounded := by
  apply holds_of_changes ?_ grounded requests
  rw [headless]
  intro project next grounded change
  exact Project.grounded_change grounded change

/-- A block that names the variable of the sprite, and then that of the stage; and a block that names a
message, which is added. -/
def naming : List Request :=
  [declaring "add_variable" "score" "all", declaring "add_variable" "speed" "sprite",
    adding "data_showvariable",
    ⟨"set_block_field", .ofMembers
      [("blockId", .text "block_1"), ("fieldName", .text "VARIABLE"), ("value", .text "var_1")]⟩,
    adding "event_whenbroadcastreceived"]

theorem references_of_requests_naming :
    stageAndSprite.editor = .headless ∧ stageAndSprite.project.Grounded ∧
      ((stageAndSprite.executeAll naming).2.project.targets.map fun target =>
        (target.vars.map fun entity => (entity.id, entity.name),
          target.broadcasts.map fun entity => (entity.id, entity.name))) =
        [([("var_1", "score")], [("broadcast_3", "message1")]), ([("var_2", "speed")], [])] ∧
      ((stageAndSprite.executeAll naming).2.project.targets.map fun target =>
        target.blocks.blocks.entries.map fun entry => entry.2.fields.entries) =
        [[], [[("VARIABLE", .reference "score" "var_1")],
          [("BROADCAST_OPTION", .reference "message1" "broadcast_3")]]] ∧
      (stageAndSprite.executeAll naming).2.project.Grounded := by
  have grounded : stageAndSprite.project.Grounded := by
    intro index target found id block stored
    have empty : ∀ target ∈ stageAndSprite.project.targets, target.blocks = {} := by decide +kernel
    rw [empty target (List.mem_of_getElem? found)] at stored
    cases stored
  exact ⟨rfl, grounded, by decide +kernel, by decide +kernel,
    references_of_requests stageAndSprite rfl grounded naming⟩

end Session

end BlockGraph
