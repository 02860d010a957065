import BlockGraph.Proofs.Entities
import BlockGraph.Proofs.WellLinked.NewBlocks

/-!
Every change of a project whose targets are well-linked leaves them so, and a change that fails leaves
the targets as they were, except for the numbers that were spent on ids. Where there is a stage to
hold messages, a change fails only because it is refused. Whatever else holds of the blocks and is
kept by the edits of one target is kept along with the links.
-/

set_option autoImplicit false

namespace BlockGraph

open Revision

/-- A target without the count of the ids that were generated for its blocks. -/
def Target.uncounted (target : Target) : Target :=
  { target with blocks := target.blocks.uncounted }

namespace Arena

/-- A condition on well-linked blocks that writing a field keeps. -/
structure Writable (condition : Arena → Prop) : Prop where
  uncounted : ∀ {arena next : Arena}, condition arena → next.uncounted = arena.uncounted →
    condition next
  readied : ∀ {arena next : Arena}, arena.WellLinked → condition arena →
    FieldWrite.Readied arena next → condition next
  write : ∀ {arena : Arena}, condition arena → ∀ id name field,
    condition (arena.modifyBlock id fun block =>
      { block with fields := block.fields.insert name field })

/-- A condition that new blocks keep as well. -/
structure Growing (condition : Arena → Prop) : Prop extends Writable condition where
  placed : ∀ {arena middle next : Arena} {spec : Catalog.BlockSpec} {id : String} {block : Block}
    {shadows : List (String × Block)}, arena.WellLinked → condition arena → spec ∈ Catalog.specs →
    NewBlock.Placed arena spec id block shadows middle next → condition next

/-- A condition that all edits keep, as long as blocks are connected in allowed ways only. -/
structure Lasting (allowed : Arena → String → String → Placement → Prop) (condition : Arena → Prop) :
    Prop extends Growing condition where
  connected : ∀ {arena : Arena} {source target : String} {placement : Placement},
    arena.WellLinked → condition arena → allowed arena source target placement →
    After (connect source target placement) arena (fun _ => condition) fun _ _ => True
  detached : ∀ {arena : Arena} (id : String), arena.WellLinked → condition arena →
    After (detach id) arena (fun _ => condition) fun _ _ => True
  deleted : ∀ {arena : Arena} (id : String), arena.WellLinked → condition arena →
    After (delete id) arena (fun _ => condition) fun _ _ => True

/-- What holds of all blocks is kept in every way. -/
theorem lasting_true : Lasting (fun _ _ _ _ => True) fun _ => True where
  uncounted _ _ := trivial
  readied _ _ _ := trivial
  write _ _ _ _ := trivial
  placed _ _ _ _ := trivial
  connected _ _ _ := after_true _ _
  detached _ _ _ := after_true _ _
  deleted _ _ _ := after_true _ _

end Arena

namespace Project

variable {α : Type} {project first second : Project} {index : Nat} {target : Target}

def WellLinked (project : Project) : Prop :=
  project.Every fun target => target.blocks.WellLinked

/-- Blocks, scripts, variables, lists and messages are the same. -/
def SameTargets (first second : Project) : Prop :=
  first.targets.map Target.uncounted = second.targets.map Target.uncounted

namespace SameTargets

theorem refl (project : Project) : project.SameTargets project := rfl

theorem symm (same : first.SameTargets second) : second.SameTargets first :=
  Eq.symm same

theorem trans {third : Project} (same : first.SameTargets second)
    (again : second.SameTargets third) : first.SameTargets third :=
  Eq.trans same again

theorem putBlocks (found : project.targets[index]? = some target) {blocks : Arena}
    (same : blocks.uncounted = target.blocks.uncounted) :
    (project.putBlocks index blocks).SameTargets project := by
  apply List.ext_getElem?
  intro other
  rw [List.getElem?_map, List.getElem?_map, Project.putBlocks, get_modifyTarget]
  by_cases hit : index = other
  · subst hit
    simp [found, Target.uncounted, same]
  · simp [hit]

theorem get (same : first.SameTargets second) (found : second.targets[index]? = some target) :
    ∃ other, first.targets[index]? = some other ∧ other.uncounted = target.uncounted := by
  have entries : (first.targets.map Target.uncounted)[index]? =
      (second.targets.map Target.uncounted)[index]? := by rw [same]
  rw [List.getElem?_map, List.getElem?_map, found, Option.map_some] at entries
  exact Option.map_eq_some_iff.mp entries

/-- Blocks that were put into a target and taken out again leave no trace. -/
theorem putBlocks_back {blocks final : Arena} (same : first.SameTargets (project.putBlocks index blocks))
    (found : project.targets[index]? = some target)
    (restored : final.uncounted = target.blocks.uncounted) :
    (first.putBlocks index final).SameTargets project := by
  obtain ⟨changed, changedFound, equal⟩ := same.get (get_putBlocks found blocks)
  apply List.ext_getElem?
  intro other
  have entries : (first.targets.map Target.uncounted)[other]? =
      ((project.putBlocks index blocks).targets.map Target.uncounted)[other]? := by rw [same]
  rw [List.getElem?_map, List.getElem?_map, Project.putBlocks, get_modifyTarget] at entries
  rw [List.getElem?_map, List.getElem?_map, Project.putBlocks, get_modifyTarget]
  by_cases hit : index = other
  · subst hit
    have back : ({ changed with blocks := final } : Target).uncounted = target.uncounted := by
      have put := congrArg (fun target : Target => { target with blocks := final.uncounted }) equal
      simp only [Target.uncounted] at put ⊢
      rw [put, restored]
    simp [found, changedFound, back]
  · simpa [hit] using entries

end SameTargets

theorem targets_putBlocks (same : first.targets = second.targets) (index : Nat) (blocks : Arena) :
    (first.putBlocks index blocks).targets = (second.putBlocks index blocks).targets := by
  simp only [putBlocks, modifyTarget, same]

theorem WellLinked.of_sameTargets (linked : second.WellLinked) (same : first.SameTargets second) :
    first.WellLinked := by
  intro target member
  have listed : target.uncounted ∈ second.targets.map Target.uncounted :=
    same ▸ List.mem_map_of_mem member
  obtain ⟨other, inside, equal⟩ := List.mem_map.mp listed
  exact (linked other inside).of_uncounted (congrArg Target.blocks equal).symm

/-- Some target is a stage. -/
def HasStage (project : Project) : Prop :=
  ∃ target ∈ project.targets, target.isStage = true

theorem HasStage.of_isStage (staged : second.HasStage)
    (same : first.targets.map Target.isStage = second.targets.map Target.isStage) :
    first.HasStage := by
  obtain ⟨target, member, isStage⟩ := staged
  have listed : true ∈ first.targets.map Target.isStage := by
    rw [same, ← isStage]
    exact List.mem_map_of_mem member
  exact List.mem_map.mp listed

theorem HasStage.stageIndex (staged : project.HasStage) :
    ∃ index, project.stageIndex? = some index := by
  obtain ⟨target, member, isStage⟩ := staged
  cases found : project.stageIndex? with
  | some index => exact ⟨index, rfl⟩
  | none =>
    have none := List.findIdx?_eq_none_iff.mp found target member
    rw [isStage] at none
    cases none

theorem HasStage.putBlocks (staged : project.HasStage) (index : Nat) (blocks : Arena) :
    (project.putBlocks index blocks).HasStage :=
  staged.of_isStage (map_modifyTarget fun _ => rfl)

/-- Well-linked targets whose blocks satisfy a further condition, in a project with given stages and a
given choice of the editing target. -/
structure Sound (condition : Nat → Arena → Prop) (stages : List Bool) (editing : Option Nat)
    (project : Project) : Prop where
  linked : project.WellLinked
  blocks : ∀ index target, project.targets[index]? = some target → condition index target.blocks
  stages : project.targets.map Target.isStage = stages
  editing : project.editing = editing

namespace Sound

variable {condition : Nat → Arena → Prop} {stages : List Bool} {editing : Option Nat}

theorem modifyTarget (sound : project.Sound condition stages editing) {change : Target → Target}
    (keeps : ∀ target, project.targets[index]? = some target →
      (change target).blocks.WellLinked ∧ condition index (change target).blocks)
    (same : ∀ target, (change target).isStage = target.isStage) :
    (project.modifyTarget index change).Sound condition stages editing := by
  refine ⟨Every.modifyTarget sound.linked fun target found => (keeps target found).1, ?_,
    (map_modifyTarget same).trans sound.stages, sound.editing⟩
  intro other target found
  rw [get_modifyTarget] at found
  split at found
  · rename_i hit
    subst hit
    obtain ⟨old, lookup, rfl⟩ := Option.map_eq_some_iff.mp found
    exact (keeps old lookup).2
  · exact sound.blocks other target found

theorem putBlocks (sound : project.Sound condition stages editing) {blocks : Arena}
    (linked : blocks.WellLinked) (holds : condition index blocks) :
    (project.putBlocks index blocks).Sound condition stages editing :=
  sound.modifyTarget (fun _ _ => ⟨linked, holds⟩) fun _ => rfl

theorem setEntities (sound : project.Sound condition stages editing) {change : Target → Target}
    (same : ∀ target, (change target).blocks = target.blocks ∧
      (change target).isStage = target.isStage) :
    (project.modifyTarget index change).Sound condition stages editing := by
  refine sound.modifyTarget (fun target found => ?_) fun target => (same target).2
  rw [(same target).1]
  exact ⟨sound.linked.get found, sound.blocks index target found⟩

theorem of_sameTargets (sound : second.Sound condition stages editing)
    (uncounted : ∀ index {arena next : Arena}, condition index arena →
      next.uncounted = arena.uncounted → condition index next)
    (same : first.SameTargets second) (chosen : first.editing = second.editing) :
    first.Sound condition stages editing := by
  have flags : ∀ targets : List Target,
      targets.map Target.isStage = (targets.map Target.uncounted).map Target.isStage := by
    intro targets
    rw [List.map_map]
    rfl
  refine ⟨sound.linked.of_sameTargets same, fun index target found => ?_, ?_,
    chosen.trans sound.editing⟩
  · obtain ⟨other, lookup, equal⟩ := same.symm.get found
    exact uncounted index (sound.blocks index other lookup) (congrArg Target.blocks equal).symm
  · rw [flags, same, ← flags, sound.stages]

end Sound

/-- What a failure leaves behind: the targets and the choice of one are as they were. Only a message
without a stage to hold it is more than a refusal. -/
structure Refused (fault : Fault) (next project : Project) : Prop where
  targets : next.SameTargets project
  editing : next.editing = project.editing
  refusal : project.HasStage → fault.IsRefusal

namespace Refused

variable {fault : Fault}

theorem refl (refusal : fault.IsRefusal) : Refused fault project project :=
  ⟨.refl project, rfl, fun _ => refusal⟩

theorem of_check {β : Type} {outcome : Except Fault β} (refuses : Refuses outcome) :
    ∀ fault, outcome = .error fault → ∀ project, Refused fault project project :=
  fun fault failed _ => refl (refuses fault failed)

theorem putBlocks (found : project.targets[index]? = some target) {blocks : Arena}
    (same : blocks.uncounted = target.blocks.uncounted) (refusal : fault.IsRefusal) :
    Refused fault (project.putBlocks index blocks) project :=
  ⟨.putBlocks found same, rfl, fun _ => refusal⟩

end Refused

variable {condition : Nat → Arena → Prop} {stages : List Bool} {editing : Option Nat}

abbrev Transacts (condition : Nat → Arena → Prop) (revision : Revision Project α) : Prop :=
  ∀ stages editing, Revision.Transacts (Sound condition stages editing) Refused revision

theorem after_onEditingBlocks (sound : project.Sound condition stages editing)
    {change : Revision Arena α}
    (keeps : ∀ index target, project.requireEditing = .ok (index, target) →
      After change target.blocks (fun _ next => next.WellLinked ∧ condition index next)
        fun fault next => next = target.blocks ∧ fault.IsRefusal) :
    After (onEditingBlocks change) project (fun _ next => next.Sound condition stages editing)
      fun fault next => Refused fault next project := by
  rw [onEditingBlocks, after_bind, after_editingIndex]
  refine ⟨fun index target required => ?_, fun fault failed =>
    .of_check (refuses_requireEditing project) fault failed project⟩
  rw [after_onBlocks]
  refine ⟨fun same lookup => ?_, fun _ => .refl trivial⟩
  obtain rfl := Option.some.inj ((requireEditing_eq_ok required).2.symm.trans lookup)
  apply (keeps index target required).mono
  · rintro _ blocks ⟨linked, holds⟩
    exact sound.putBlocks linked holds
  · rintro _ _ ⟨rfl, refusal⟩
    exact .putBlocks lookup rfl refusal

/-- A write that failed after its slot was made ready. -/
structure Stopped (fault : Fault) (next project : Project) : Prop where
  targets : next.targets = project.targets
  editing : next.editing = project.editing
  refusal : project.HasStage → fault.IsRefusal

theorem Stopped.of_check {β : Type} {outcome : Except Fault β} (refuses : Refuses outcome)
    (fault : Fault) (failed : outcome = .error fault) : Stopped fault project project :=
  ⟨rfl, rfl, fun _ => refuses fault failed⟩

/-- A message is found or added to the stage; the blocks of all targets stay. -/
theorem after_ensureBroadcast (sound : project.Sound condition stages editing) (name : String)
    (found : project.targets[index]? = some target) :
    After (ensureBroadcast name) project
      (fun _ next => next.Sound condition stages editing ∧
        ∃ same, next.targets[index]? = some same ∧ same.blocks = target.blocks)
      fun fault next => Stopped fault next project := by
  apply (announces_of_ensureBroadcast project name).mono
  · intro _ next announces
    refine ⟨?_, announces.blocks found⟩
    cases announces with
    | known => exact sound
    | created =>
      have counted : (project.freshEntityId "broadcast").2.Sound condition stages editing :=
        ⟨sound.linked, sound.blocks, sound.stages, sound.editing⟩
      exact counted.setEntities fun _ => ⟨rfl, rfl⟩
  · rintro _ _ ⟨unstaged, rfl⟩
    refine ⟨rfl, rfl, fun staged => ?_⟩
    obtain ⟨stage, isStage⟩ := staged.stageIndex
    cases unstaged.symm.trans isStage

theorem after_write (sound : project.Sound condition stages editing)
    (writable : Arena.Writable (condition index)) (editor : Editor) (slot : FieldWrite.Slot)
    (value : String) (found : project.targets[index]? = some target)
    (stored : ∃ block, target.blocks.get? slot.block = some block) :
    After (FieldWrite.write editor index slot value) project
      (fun _ next => next.Sound condition stages editing)
      fun fault next => Stopped fault next project := by
  have lost {lookup : Option Block} (some : ∃ block, lookup = .some block)
      (none : lookup = .none) : False := by
    obtain ⟨block, same⟩ := some
    rw [none] at same
    cases same
  rw [FieldWrite.write, after_bind, after_onBlocks]
  refine ⟨fun same lookup => ?_, fun _ => ⟨rfl, rfl, fun _ => trivial⟩⟩
  obtain rfl := Option.some.inj (found.symm.trans lookup)
  rw [Arena.after_stored, putBlocks_same found]
  refine ⟨fun owner _ => ?_, fun missing => (lost stored missing).elim⟩
  simp only [after_bind, after_get]
  rw [after_check]
  refine ⟨fun content _ => ?_, .of_check (FieldWrite.refuses_interpret _ _ _ _ _)⟩
  rw [after_check]
  refine ⟨fun _ _ => ?_, .of_check (FieldWrite.refuses_validate _ _ _)⟩
  have writes : ∀ (next : Project) (bound : Field × String),
      next.Sound condition stages editing →
      (∃ same, next.targets[index]? = some same ∧ same.blocks = target.blocks) →
      After (onBlocks index (Arena.update slot.block fun block =>
        { block with fields := block.fields.insert slot.field bound.1 })) next
        (fun _ final => final.Sound condition stages editing)
        fun fault final => Stopped fault final project := by
    rintro next bound nextSound ⟨kept, keptFound, same⟩
    rw [after_onBlocks]
    refine ⟨fun other lookup => ?_, fun missing => ?_⟩
    · obtain rfl := Option.some.inj (keptFound.symm.trans lookup)
      rw [Arena.after_update, same]
      refine ⟨fun _ => nextSound.putBlocks ?_ ?_, fun missing => (lost stored missing).elim⟩
      · exact (sound.linked.get found).writeField slot.block slot.field bound.1
      · exact writable.write (sound.blocks index target found) slot.block slot.field bound.1
    · rw [missing] at keptFound
      cases keptFound
  have binds : After (FieldWrite.contentField content) project
      (fun _ next => next.Sound condition stages editing ∧
        ∃ same, next.targets[index]? = some same ∧ same.blocks = target.blocks)
      fun fault next => Stopped fault next project := by
    cases content with
    | plain text => exact ⟨sound, target, found, rfl⟩
    | reference label id => exact ⟨sound, target, found, rfl⟩
    | message name =>
      rw [FieldWrite.contentField, after_bind]
      exact after_ensureBroadcast sound name found
  apply binds.mono
  · rintro bound next ⟨nextSound, kept⟩
    exact writes next bound nextSound kept
  · intro _ _ stopped
    exact stopped

theorem transacts_setField (writable : ∀ index, Arena.Writable (condition index))
    (editor : Editor) (block name value : String) :
    Transacts condition (setField editor block name value) := by
  intro stages editing project sound
  rw [setField, after_bind, after_editingIndex]
  refine ⟨fun index target required => ?_, fun fault failed =>
    .of_check (refuses_requireEditing project) fault failed project⟩
  have found := (requireEditing_eq_ok required).2
  have arenaLinked := sound.linked.get found
  rw [after_bind, after_onBlocks]
  refine ⟨fun same lookup => ?_, fun _ => .refl trivial⟩
  obtain rfl := Option.some.inj (found.symm.trans lookup)
  have resolves := (FieldWrite.after_resolve arenaLinked block name).and
    (FieldWrite.maintains_resolve block name target.blocks arenaLinked.tidy)
  apply resolves.mono
  · rintro slot blocks ⟨resolved, tidy⟩
    have holds := (writable index).readied arenaLinked (sound.blocks index target found) resolved.readied
    have nextSound : (project.putBlocks index blocks).Sound condition stages editing :=
      sound.putBlocks (resolved.knit.wellLinked tidy) holds
    have nextFound := get_putBlocks found blocks
    rw [after_tryCatch]
    apply (after_write nextSound (writable index) editor slot value nextFound resolved.found).mono
    · intro _ _ kept
      exact kept
    · intro fault next stopped
      have refusal : project.HasStage → fault.IsRefusal :=
        fun staged => stopped.refusal (staged.putBlocks index blocks)
      cases plugged : slot.plug with
      | none =>
        rw [after_throw]
        refine ⟨?_, stopped.editing, refusal⟩
        have kept := resolved.kept plugged
        rw [SameTargets, stopped.targets, kept, putBlocks_same found]
      | some plug =>
        rw [after_bind, after_onBlocks, stopped.targets]
        refine ⟨fun other lookup => ?_, fun missing => ?_⟩
        · obtain rfl := Option.some.inj (nextFound.symm.trans lookup)
          rw [after_modify, after_throw]
          refine ⟨?_, stopped.editing, refusal⟩
          have restored : (project.putBlocks index (FieldWrite.unplug blocks plug)).SameTargets project :=
            .putBlocks found (resolved.undone plug plugged)
          have targets := targets_putBlocks stopped.targets index (FieldWrite.unplug blocks plug)
          rw [putBlocks_putBlocks] at targets
          rw [SameTargets, targets]
          exact restored
        · rw [missing] at nextFound
          cases nextFound
  · rintro _ blocks ⟨⟨same, refusal⟩, -⟩
    exact .putBlocks found same refusal

theorem transacts_addBlock (growing : ∀ index, Arena.Growing (condition index)) (editor : Editor)
    (opcode : String) (creation : Json) : Transacts condition (addBlock editor opcode creation) := by
  intro stages editing project sound
  rw [addBlock, after_bind, after_get, after_bind, after_check]
  refine ⟨?_, fun fault failed =>
    .of_check (refuses_requireEditing project) fault failed project⟩
  rintro ⟨index, target⟩ required
  have found := (requireEditing_eq_ok required).2
  have arenaLinked := sound.linked.get found
  cases isSpec : Catalog.spec? opcode with
  | none => exact .refl trivial
  | some spec =>
    have listed := (Catalog.spec?_eq_some isSpec).1
    simp only
    rw [after_bind, after_check]
    refine ⟨fun requested asked => ?_, fun fault failed =>
      .of_check (refuses_requestedBindings spec creation) fault failed project⟩
    rw [after_bind, after_onBlocks]
    refine ⟨fun same lookup => ?_, fun _ => .refl trivial⟩
    obtain rfl := Option.some.inj (found.symm.trans lookup)
    apply (NewBlock.after_place project target spec target.blocks).mono
    · rintro id blocks ⟨block, shadows, middle, placed⟩
      have nextSound : (project.putBlocks index blocks).Sound condition stages editing :=
        sound.putBlocks
          ((placed.knit arenaLinked listed).wellLinked (placed.tidy listed arenaLinked.tidy))
          ((growing index).placed arenaLinked (sound.blocks index target found) listed placed)
      have short := NewBlock.bindings_length_le_one listed asked project index
      generalize requested ++ NewBlock.implicitBindings project index spec requested ++
        NewBlock.messageBindings spec = bindings at short ⊢
      have binds : Revision.Transacts (Sound condition stages editing) Refused
          (bindings.forM fun binding => do
            let _ ← setField editor id binding.1 binding.2) := by
        rcases bindings with _ | ⟨binding, _ | ⟨other, rest⟩⟩
        · exact .pure _
        · have writes : Revision.Transacts (Sound condition stages editing) Refused (do
              let _ ← setField editor id binding.1 binding.2) :=
            (transacts_setField (fun index => (growing index).toWritable) editor id binding.1 binding.2
              stages editing).bind fun _ _ kept => kept
          exact writes.bind fun _ _ kept => kept
        · simp at short
      rw [after_bind, after_tryCatch]
      apply (binds _ nextSound).mono
      · intro _ next kept
        exact kept
      · intro fault next refused
        have same := refused.targets
        obtain ⟨changed, changedFound, equal⟩ := same.get (get_putBlocks found blocks)
        rw [after_bind, after_onBlocks]
        refine ⟨fun other lookup => ?_, fun missing => ?_⟩
        · obtain rfl := Option.some.inj (changedFound.symm.trans lookup)
          have sameBlocks : changed.blocks.uncounted = blocks.uncounted := congrArg Target.blocks equal
          apply (placed.after_discard arenaLinked.tidy sameBlocks).mono
          · intro _ final restored
            exact ⟨same.putBlocks_back found restored, refused.editing,
              fun staged => refused.refusal (staged.putBlocks index blocks)⟩
          · intro _ _ never
            exact never.elim
        · rw [missing] at changedFound
          cases changedFound
    · intro _ _ never
      exact never.elim

theorem transacts_declare (kind : EntityKind) (name : String) (scope : Scope) :
    Transacts condition (declare kind name scope) := by
  intro stages editing
  simp only [declare]
  split
  · exact .throw fun _ => .refl trivial
  intro project sound
  rw [after_bind, after_get, after_bind, after_check]
  refine ⟨?_, fun fault failed =>
    .of_check (refuses_declarationOwner project scope) fault failed project⟩
  rintro ⟨index, owner⟩ -
  simp only
  split
  · exact .refl trivial
  have counted : (project.freshEntityId kind.stem).2.Sound condition stages editing :=
    ⟨sound.linked, sound.blocks, sound.stages, sound.editing⟩
  apply counted.setEntities
  intro target
  match kind with
  | .variable => exact ⟨rfl, rfl⟩
  | .list => exact ⟨rfl, rfl⟩

theorem after_selectSprite (sound : project.Sound condition stages editing) (name : String) :
    After (selectSprite name) project (fun _ next => ∃ chosen, next.Sound condition stages chosen)
      fun fault next => Refused fault next project := by
  rw [selectSprite, after_bind, after_get]
  split
  · exact .refl trivial
  · exact ⟨_, sound.linked, sound.blocks, sound.stages, rfl⟩

theorem after_selectStage (sound : project.Sound condition stages editing) :
    After selectStage project (fun _ next => ∃ chosen, next.Sound condition stages chosen)
      fun fault next => Refused fault next project := by
  rw [selectStage, after_bind, after_get]
  split
  · exact ⟨_, sound.linked, sound.blocks, sound.stages, rfl⟩
  · exact .refl trivial

end Project

end BlockGraph
