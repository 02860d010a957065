import BlockGraph.Proofs.Changes
import BlockGraph.Proofs.WellLinked.Sessions

/-!
Names and ids of entities are unambiguous: no id is given twice, messages have different names, and a
name stands for one variable and for one list wherever it can be used. A declaration for all targets
therefore avoids the names of every sprite, and one for a sprite avoids those that the sprite sees.
-/

set_option autoImplicit false

namespace BlockGraph.Project

variable {project : Project} {kind other : EntityKind} {index : Nat} {owner target : Target}
  {entity : Entity} {change : Target → Target}

/-- The variables or the lists that a sprite sees have different names, and so have those of the first
stage. -/
structure DistinctNames (project : Project) (kind : EntityKind) : Prop where
  globals : ((project.globals kind.pick).map Entity.name).Nodup
  locals : ∀ target ∈ project.targets, target.isStage = false →
    ((kind.pick target ++ project.globals kind.pick).map Entity.name).Nodup

structure Unambiguous (project : Project) : Prop where
  /-- Ids of all variables, lists and messages differ. -/
  ids : project.entityIds.Nodup
  messages : (project.messages.map Entity.name).Nodup
  names : ∀ kind, project.DistinctNames kind

theorem DistinctNames.modifyTarget (distinct : project.DistinctNames kind)
    (same : ∀ target, (change target).isStage = target.isStage)
    (keeps : ∀ target, kind.pick (change target) = kind.pick target) :
    (project.modifyTarget index change).DistinctNames kind := by
  have shared : (project.modifyTarget index change).globals kind.pick = project.globals kind.pick :=
    globals_modifyTarget_same same keeps
  refine ⟨shared ▸ distinct.globals, ?_⟩
  rw [shared]
  apply Every.modifyTarget distinct.locals
  intro target found
  rw [same, keeps]
  exact distinct.locals target (List.mem_of_getElem? found)

/-- A name that is free for an owner is new among all that the owner sees, and among all names if the
owner is a stage. -/
theorem not_mem_of_free (found : project.targets[index]? = some owner) {name : String}
    (free : name ∉ project.takenNames kind index owner.isStage) :
    name ∉ (kind.pick owner ++ project.globals kind.pick).map Entity.name ∧
      (owner.isStage = true → ∀ target ∈ project.targets,
        name ∉ (kind.pick target).map Entity.name) := by
  unfold takenNames at free
  cases isStage : owner.isStage with
  | false =>
    have sees : project.visible index kind.pick = kind.pick owner ++ project.globals kind.pick := by
      rw [visible_of_get owner found, isStage]
      rfl
    rw [← sees]
    simp only [isStage, Bool.false_eq_true, if_false] at free
    exact ⟨free, by simp⟩
  | true =>
    have unused : ∀ target ∈ project.targets, name ∉ (kind.pick target).map Entity.name := by
      intro target member listed
      obtain ⟨entity, inside, rfl⟩ := List.mem_map.mp listed
      simp only [isStage, if_true] at free
      exact free (List.mem_map_of_mem (List.mem_flatMap.mpr ⟨target, member, inside⟩))
    refine ⟨?_, fun _ => unused⟩
    rw [List.map_append, List.mem_append, not_or]
    refine ⟨unused owner (List.mem_of_getElem? found), ?_⟩
    cases first : project.stage? with
    | none => simp [globals, first]
    | some stage =>
      have shared : project.globals kind.pick = kind.pick stage := by simp [globals, first]
      rw [shared]
      exact unused stage (List.mem_of_find?_eq_some first)

/-- A new variable or list is shared if its owner is the first stage. -/
theorem globals_add (kind : EntityKind) (entity : Entity) :
    (project.modifyTarget index (kind.add entity)).globals kind.pick =
      if project.stageIndex? = some index then project.globals kind.pick ++ [entity]
      else project.globals kind.pick := by
  rw [globals_modifyTarget (kind.isStage_add entity)]
  split
  · rename_i isFirst
    obtain ⟨stage, -, first, -⟩ := get_of_stageIndex? isFirst
    simp [globals, first, EntityKind.pick_add]
  · rfl

theorem DistinctNames.add (distinct : project.DistinctNames kind)
    (found : project.targets[index]? = some owner)
    (free : entity.name ∉ project.takenNames kind index owner.isStage) :
    (project.modifyTarget index (kind.add entity)).DistinctNames kind := by
  obtain ⟨unseen, unused⟩ := not_mem_of_free found free
  have unshared : entity.name ∉ (project.globals kind.pick).map Entity.name := by
    rw [List.map_append, List.mem_append, not_or] at unseen
    exact unseen.2
  have owned : project.stageIndex? = some index → owner.isStage = true := by
    intro isFirst
    obtain ⟨stage, lookup, -, isStage⟩ := get_of_stageIndex? isFirst
    rw [Option.some.inj (found.symm.trans lookup), isStage]
  constructor
  · rw [globals_add]
    split
    · exact Entity.nodup_append distinct.globals unshared
    · exact distinct.globals
  · intro target member isSprite
    obtain ⟨place, lookup⟩ := List.mem_iff_getElem?.mp member
    rw [get_modifyTarget] at lookup
    rw [globals_add]
    split at lookup
    · rename_i same
      subst same
      obtain ⟨old, stood, rfl⟩ := Option.map_eq_some_iff.mp lookup
      obtain rfl := Option.some.inj (found.symm.trans stood)
      rw [kind.isStage_add] at isSprite
      have notFirst : project.stageIndex? ≠ some index := by
        intro isFirst
        rw [owned isFirst] at isSprite
        cases isSprite
      rw [if_neg notFirst, EntityKind.pick_add, if_pos rfl, List.append_assoc]
      exact Entity.nodup_insert (distinct.locals owner (List.mem_of_getElem? found) isSprite) unseen
    · have sprite := List.mem_of_getElem? lookup
      have before := distinct.locals target sprite isSprite
      split
      · rename_i isFirst
        rw [← List.append_assoc]
        apply Entity.nodup_append before
        rw [List.map_append, List.mem_append, not_or]
        exact ⟨unused (owned isFirst) target sprite, unshared⟩
      · exact before

theorem Unambiguous.putBlocks (unambiguous : project.Unambiguous) (blocks : Arena) :
    (project.putBlocks index blocks).Unambiguous := by
  let put (target : Target) : Target := { target with blocks := blocks }
  have same : ∀ target, (put target).isStage = target.isStage := fun _ => rfl
  have ids : (project.modifyTarget index put).entityIds = project.entityIds :=
    entityIds_modifyTarget_same fun _ => rfl
  have messages : (project.modifyTarget index put).messages = project.messages :=
    globals_modifyTarget_same same fun _ => rfl
  refine ⟨ids ▸ unambiguous.ids, messages ▸ unambiguous.messages, fun kind => ?_⟩
  apply (unambiguous.names kind).modifyTarget same
  intro target
  cases kind <;> rfl

theorem Unambiguous.declare (unambiguous : project.Unambiguous)
    (found : project.targets[index]? = some owner)
    (free : entity.name ∉ project.takenNames kind index owner.isStage)
    (fresh : entity.id ∉ project.entityIds) :
    (project.modifyTarget index (kind.add entity)).Unambiguous := by
  have messages : (project.modifyTarget index (kind.add entity)).messages = project.messages :=
    globals_modifyTarget_same (kind.isStage_add entity) (kind.broadcasts_add entity)
  refine ⟨?_, messages ▸ unambiguous.messages, fun other => ?_⟩
  · rw [(entityIds_modifyTarget found (kind.entities_add entity owner)).nodup_iff]
    exact List.nodup_cons.mpr ⟨fresh, unambiguous.ids⟩
  · by_cases same : kind = other
    · subst same
      exact (unambiguous.names kind).add found free
    · apply (unambiguous.names other).modifyTarget (kind.isStage_add entity)
      intro target
      rw [EntityKind.pick_add, if_neg same]

theorem Unambiguous.announce (unambiguous : project.Unambiguous)
    (isFirst : project.stageIndex? = some index)
    (free : entity.name ∉ project.messages.map Entity.name)
    (fresh : entity.id ∉ project.entityIds) :
    (project.modifyTarget index (·.withMessage entity)).Unambiguous := by
  obtain ⟨stage, found, -⟩ := get_of_stageIndex? isFirst
  refine ⟨?_, ?_, fun kind => ?_⟩
  · rw [(entityIds_modifyTarget found (stage.entities_withMessage entity)).nodup_iff]
    exact List.nodup_cons.mpr ⟨fresh, unambiguous.ids⟩
  · rw [messages_withMessage isFirst]
    exact Entity.nodup_append unambiguous.messages free
  · apply (unambiguous.names kind).modifyTarget fun target => target.isStage_withMessage entity
    intro target
    cases kind <;> rfl

theorem Unambiguous.of_targets {next : Project} (unambiguous : project.Unambiguous)
    (same : next.targets = project.targets) : next.Unambiguous := by
  have shared : ∀ pick, next.globals pick = project.globals pick := by
    intro pick
    rw [globals, globals, stage?, stage?, same]
  have messages : next.messages = project.messages := shared Target.broadcasts
  refine ⟨?_, messages ▸ unambiguous.messages, fun kind => ⟨?_, ?_⟩⟩
  · rw [entityIds, same]
    exact unambiguous.ids
  · exact shared kind.pick ▸ (unambiguous.names kind).globals
  · rw [same, shared]
    exact (unambiguous.names kind).locals

theorem unambiguous_change {editor : Editor} {next : Project} (unambiguous : project.Unambiguous)
    (change : Change editor project next) : next.Unambiguous := by
  cases change with
  | tuned same => exact unambiguous.of_targets same
  | rebuilt _ _ => exact unambiguous.putBlocks _
  | wrote _ _ => exact unambiguous.putBlocks _
  | declared found free fresh => exact unambiguous.declare found free fresh
  | announced isFirst free fresh => exact unambiguous.announce isFirst free fresh

end BlockGraph.Project

namespace BlockGraph.Session

/-- Names and ids stay unambiguous whatever is requested. -/
theorem names_of_requests (session : Session) (unambiguous : session.project.Unambiguous)
    (requests : List Request) : (session.executeAll requests).2.project.Unambiguous :=
  holds_of_changes (fun _ _ => Project.unambiguous_change) unambiguous requests

/-- A variable of the stage, and one of a sprite whose id looks like a generated one. -/
def scored : Session where
  project := .ofTargets
    [{ name := "Stage", isStage := true, vars := [⟨"a", "score", .ofNat 0⟩] },
      { name := "Cat", isStage := false, vars := [⟨"var_1", "speed", .ofNat 1⟩] }] ∅

/-- Two names that are taken, one that is free, a list with the name of a variable, and a message that
two blocks name. -/
def crowding : List Request :=
  [declaring "add_variable" " speed " "all", declaring "add_variable" "score" "sprite",
    declaring "add_variable" "lives" "sprite", declaring "add_list" "score" "all",
    adding "event_broadcast", adding "event_whenbroadcastreceived"]

theorem names_of_requests_crowding :
    scored.project.Unambiguous ∧
      ((scored.executeAll crowding).2.project.targets.map fun target =>
        target.entities.map fun entity => (entity.id, entity.name)) =
        [[("a", "score"), ("list_3", "score"), ("broadcast_4", "message1")],
          [("var_1", "speed"), ("var_2", "lives")]] ∧
      (scored.executeAll crowding).2.project.Unambiguous := by
  have unambiguous : scored.project.Unambiguous := by
    refine ⟨by decide +kernel, by decide +kernel, fun kind => ?_⟩
    cases kind
    · exact ⟨by decide +kernel, by decide +kernel⟩
    · exact ⟨by decide +kernel, by decide +kernel⟩
  exact ⟨unambiguous, by decide +kernel, names_of_requests scored unambiguous crowding⟩

end BlockGraph.Session
