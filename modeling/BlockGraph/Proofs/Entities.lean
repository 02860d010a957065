import BlockGraph.Proofs.Project
import Mathlib.Data.List.Nodup
import Mathlib.Data.List.Perm.Basic

/-!
Variables, lists and messages when one target of a project is changed: the stage stays where it is,
what a target sees changes only with the target or the stage, and an entity that is added is one more
among all.
-/

set_option autoImplicit false

namespace BlockGraph

namespace Entity

variable {key : Entity → String} {entities before after : List Entity} {entity : Entity}

theorem nodup_insert (distinct : ((before ++ after).map key).Nodup)
    (isNew : key entity ∉ (before ++ after).map key) :
    ((before ++ entity :: after).map key).Nodup := by
  rw [List.map_append, List.map_cons, List.nodup_middle, List.nodup_cons, ← List.map_append]
  exact ⟨isNew, distinct⟩

theorem nodup_append (distinct : (entities.map key).Nodup) (isNew : key entity ∉ entities.map key) :
    ((entities ++ [entity]).map key).Nodup := by
  rw [← List.append_nil entities] at distinct isNew
  exact nodup_insert distinct isNew

end Entity

namespace EntityKind

variable (kind other : EntityKind) (entity : Entity) (target : Target)

theorem pick_add : kind.pick (other.add entity target) =
    if other = kind then kind.pick target ++ [entity] else kind.pick target := by
  cases kind <;> cases other <;> rfl

@[simp]
theorem isStage_add : (kind.add entity target).isStage = target.isStage := by
  cases kind <;> rfl

@[simp]
theorem blocks_add : (kind.add entity target).blocks = target.blocks := by
  cases kind <;> rfl

@[simp]
theorem broadcasts_add : (kind.add entity target).broadcasts = target.broadcasts := by
  cases kind <;> rfl

theorem entities_add : (kind.add entity target).entities.Perm (entity :: target.entities) := by
  cases kind
  · simp [add, Target.entities]
  · rw [add, Target.entities, ← List.append_assoc, List.append_assoc, List.singleton_append]
    exact List.perm_middle

end EntityKind

namespace Target

/-- The target with one more message. -/
def withMessage (target : Target) (message : Entity) : Target :=
  { target with broadcasts := target.broadcasts ++ [message] }

@[simp]
theorem isStage_withMessage (target : Target) (message : Entity) :
    (target.withMessage message).isStage = target.isStage := rfl

theorem entities_withMessage (target : Target) (message : Entity) :
    (target.withMessage message).entities.Perm (message :: target.entities) := by
  rw [withMessage, entities, ← List.append_assoc]
  exact List.perm_append_singleton _ _

end Target

namespace Project

variable {project : Project} {index : Nat} {change : Target → Target} {pick : Target → List Entity}

/-- Entities of the first stage. -/
def globals (project : Project) (pick : Target → List Entity) : List Entity :=
  (project.stage?.map pick).getD []

/-- Entities that the target at `index` sees. -/
def visible (project : Project) (index : Nat) (pick : Target → List Entity) : List Entity :=
  (project.inScope index pick).map Prod.fst

theorem visible_of_get (target : Target) (found : project.targets[index]? = some target) :
    project.visible index pick =
      if target.isStage then pick target else pick target ++ project.globals pick := by
  simp only [visible, inScope, found]
  split <;> simp [globals, Function.comp_def]

theorem stage?_eq (project : Project) :
    project.stage? = project.stageIndex?.bind fun index => project.targets[index]? := by
  rw [stage?, stageIndex?]
  induction project.targets with
  | nil => rfl
  | cons target rest ih =>
    rw [List.find?_cons, List.findIdx?_cons]
    cases target.isStage with
    | true => rfl
    | false =>
      rw [ih]
      cases rest.findIdx? Target.isStage <;> rfl

theorem get_of_stageIndex? (isFirst : project.stageIndex? = some index) :
    ∃ stage, project.targets[index]? = some stage ∧ project.stage? = some stage ∧
      stage.isStage = true := by
  obtain ⟨bound, isStage, -⟩ := List.findIdx?_eq_some_iff_getElem.mp isFirst
  have found : project.targets[index]? = some project.targets[index] := List.getElem?_eq_getElem bound
  refine ⟨project.targets[index], found, ?_, isStage⟩
  rw [stage?_eq, isFirst, Option.bind_some, found]

/-- A declaration goes to the editing target or to the first stage. -/
theorem declarationOwner_eq_ok {scope : Scope} {owner : Target}
    (owned : project.declarationOwner scope = .ok (index, owner)) :
    project.targets[index]? = some owner ∧
      (project.editing = some index ∨ project.stageIndex? = some index) := by
  unfold declarationOwner at owned
  cases required : project.requireEditing with
  | error fault =>
    rw [required] at owned
    cases owned
  | ok editing =>
    rw [required] at owned
    cases scope with
    | sprite =>
      cases owned
      obtain ⟨chosen, found⟩ := requireEditing_eq_ok required
      exact ⟨found, .inl chosen⟩
    | stage =>
      simp only [bind, Except.bind] at owned
      split at owned
      · rename_i first stage isFirst isStage
        cases owned
        obtain ⟨same, found, lookup, -⟩ := get_of_stageIndex? isFirst
        rw [found, ← lookup, isStage]
        exact ⟨rfl, .inr isFirst⟩
      · cases owned

theorem stageIndex?_modifyTarget (same : ∀ target, (change target).isStage = target.isStage) :
    (project.modifyTarget index change).stageIndex? = project.stageIndex? := by
  have flags : ∀ targets : List Target, targets.findIdx? Target.isStage =
      (targets.map Target.isStage).findIdx? id := by
    intro targets
    rw [List.findIdx?_map]
    rfl
  rw [stageIndex?, stageIndex?, flags, flags, map_modifyTarget same]

theorem globals_modifyTarget (same : ∀ target, (change target).isStage = target.isStage)
    (pick : Target → List Entity) :
    (project.modifyTarget index change).globals pick =
      if project.stageIndex? = some index then project.globals (pick ∘ change)
      else project.globals pick := by
  simp only [globals, stage?_eq, stageIndex?_modifyTarget same]
  cases stage : project.stageIndex? with
  | none => simp
  | some place =>
    simp only [Option.bind_some, get_modifyTarget, Option.some.injEq]
    by_cases hit : index = place
    · subst hit
      cases project.targets[index]? <;> simp
    · simp [hit, Ne.symm hit]

/-- Only the target itself and the stage matter for what a target sees. -/
theorem globals_modifyTarget_same (same : ∀ target, (change target).isStage = target.isStage)
    (keeps : ∀ target, pick (change target) = pick target) :
    (project.modifyTarget index change).globals pick = project.globals pick := by
  have composed : pick ∘ change = pick := funext keeps
  rw [globals_modifyTarget same, composed, ite_self]

theorem globals_subset_modifyTarget (same : ∀ target, (change target).isStage = target.isStage)
    (grows : ∀ target, pick target ⊆ pick (change target)) :
    project.globals pick ⊆ (project.modifyTarget index change).globals pick := by
  rw [globals_modifyTarget same]
  split
  · simp only [globals]
    cases project.stage? with
    | none => simp
    | some stage => exact grows stage
  · exact fun _ => id

/-- A target sees no less when some target gets more entities. -/
theorem visible_subset_modifyTarget (same : ∀ target, (change target).isStage = target.isStage)
    (grows : ∀ target, pick target ⊆ pick (change target)) (other : Nat) :
    project.visible other pick ⊆ (project.modifyTarget index change).visible other pick := by
  have shared : project.globals pick ⊆ (project.modifyTarget index change).globals pick :=
    globals_subset_modifyTarget same grows
  cases found : project.targets[other]? with
  | none =>
    have missing : (project.modifyTarget index change).targets[other]? = none := by
      simp [get_modifyTarget, found]
    simpa [visible, inScope, found, missing, globals, Function.comp_def] using shared
  | some target =>
    have stays : ∃ next, (project.modifyTarget index change).targets[other]? = some next ∧
        next.isStage = target.isStage ∧ pick target ⊆ pick next := by
      rw [get_modifyTarget, found]
      split
      · exact ⟨change target, rfl, same target, grows target⟩
      · exact ⟨target, rfl, rfl, fun _ => id⟩
    obtain ⟨next, lookup, isStage, more⟩ := stays
    rw [visible_of_get target found, visible_of_get next lookup, isStage]
    split
    · exact more
    · exact List.append_subset.mpr ⟨fun _ own => List.mem_append_left _ (more own),
        fun _ global => List.mem_append_right _ (shared global)⟩

theorem messages_withMessage (isFirst : project.stageIndex? = some index) (message : Entity) :
    (project.modifyTarget index (·.withMessage message)).messages = project.messages ++ [message] := by
  obtain ⟨stage, -, isStage, -⟩ := get_of_stageIndex? isFirst
  have added : (project.modifyTarget index (·.withMessage message)).globals Target.broadcasts =
      project.globals (Target.broadcasts ∘ (·.withMessage message)) := by
    rw [globals_modifyTarget fun target => target.isStage_withMessage message, if_pos isFirst]
  simp only [globals, isStage] at added
  rw [messages, added, messages, isStage]
  rfl

theorem messages_putBlocks (project : Project) (index : Nat) (blocks : Arena) :
    (project.putBlocks index blocks).messages = project.messages :=
  globals_modifyTarget_same (fun _ => rfl) fun _ => rfl

theorem entityIds_modifyTarget_same (keeps : ∀ target, (change target).entities = target.entities) :
    (project.modifyTarget index change).entityIds = project.entityIds := by
  rw [entityIds, entityIds, List.flatMap_def, List.flatMap_def, map_modifyTarget keeps]

theorem entityIds_modifyTarget {target : Target} {entity : Entity}
    (found : project.targets[index]? = some target)
    (added : (change target).entities.Perm (entity :: target.entities)) :
    (project.modifyTarget index change).entityIds.Perm (entity.id :: project.entityIds) := by
  have flat : ∀ (targets : List Target) (index : Nat), targets[index]? = some target →
      ((targets.modify index change).flatMap Target.entities).Perm
        (entity :: targets.flatMap Target.entities) := by
    intro targets
    induction targets with
    | nil => simp
    | cons head rest ih =>
      intro index found
      cases index with
      | zero =>
        obtain rfl : head = target := by simpa using found
        simpa using added.append_right (rest.flatMap Target.entities)
      | succ index =>
        have later := ih index (by simpa using found)
        simp only [List.modify_succ_cons, List.flatMap_cons]
        exact (later.append_left head.entities).trans List.perm_middle
  exact (flat project.targets index found).map Entity.id

/-- A message by its name: it is known, or new on the first stage. -/
inductive Announces (project : Project) (name : String) : String → Project → Prop
  | known {message : Entity} : project.broadcastByName? name = some message →
      Announces project name message.id project
  | created {stage : Nat} : project.broadcastByName? name = none →
      project.stageIndex? = some stage →
      Announces project name (project.freshEntityId "broadcast").1
        ((project.freshEntityId "broadcast").2.modifyTarget stage
          (·.withMessage ⟨(project.freshEntityId "broadcast").1, name, .text name⟩))

/-- Without a stage no message is added, but the number of its id is spent. -/
theorem announces_of_ensureBroadcast (project : Project) (name : String) :
    Revision.After (ensureBroadcast name) project (Announces project name) fun _ next =>
      project.stageIndex? = none ∧ next = (project.freshEntityId "broadcast").2 := by
  rw [ensureBroadcast, Revision.after_bind, Revision.after_get]
  split
  · rename_i known
    exact .known known
  · rename_i unknown
    simp only [Revision.after_bind, Revision.after_get, Revision.after_set]
    split
    · rename_i unstaged
      exact ⟨unstaged, rfl⟩
    · rename_i stage isFirst
      exact .created unknown isFirst

theorem Announces.blocks {name id : String} {next : Project}
    (announces : Announces project name id next) {target : Target}
    (found : project.targets[index]? = some target) :
    ∃ same, next.targets[index]? = some same ∧ same.blocks = target.blocks := by
  cases announces with
  | known => exact ⟨target, found, rfl⟩
  | created _ _ =>
    have counted : (project.freshEntityId "broadcast").2.targets[index]? = some target := found
    rw [get_modifyTarget, counted]
    split
    · exact ⟨_, rfl, rfl⟩
    · exact ⟨target, rfl, rfl⟩

end Project

end BlockGraph
