import BlockGraph.Proofs.Revision
import BlockGraph.Session

/-!
Changes of one target of a project. What holds of every target keeps holding when one target is
changed and the change keeps it; a change of blocks runs on the blocks alone.
-/

set_option autoImplicit false

namespace BlockGraph

open Revision

namespace Project

variable {α : Type} {project : Project} {index : Nat} {target : Target}

/-- A condition on all targets. -/
def Every (condition : Target → Prop) (project : Project) : Prop :=
  ∀ target ∈ project.targets, condition target

/-- The project with other blocks in one target. -/
def putBlocks (project : Project) (index : Nat) (blocks : Arena) : Project :=
  project.modifyTarget index ({ · with blocks := blocks })

theorem get_modifyTarget (project : Project) (index other : Nat) (change : Target → Target) :
    (project.modifyTarget index change).targets[other]? =
      if index = other then project.targets[other]?.map change else project.targets[other]? := by
  rw [modifyTarget, List.getElem?_modify]
  by_cases same : index = other <;> simp [same]

/-- What a change of a target leaves alone is the same for all targets. -/
theorem map_modifyTarget {β : Type} {view : Target → β} {change : Target → Target}
    (same : ∀ target, view (change target) = view target) :
    (project.modifyTarget index change).targets.map view = project.targets.map view := by
  apply List.ext_getElem?
  intro other
  rw [List.getElem?_map, List.getElem?_map, get_modifyTarget]
  split
  · cases project.targets[other]? <;> simp [same]
  · rfl

theorem putBlocks_same (found : project.targets[index]? = some target) :
    project.putBlocks index target.blocks = project := by
  have same : (project.putBlocks index target.blocks).targets = project.targets := by
    apply List.ext_getElem?
    intro other
    rw [putBlocks, get_modifyTarget]
    by_cases hit : index = other
    · subst hit
      simp [found]
    · simp [hit]
  cases project
  simp only [putBlocks, modifyTarget] at same ⊢
  rw [same]

theorem putBlocks_putBlocks (project : Project) (index : Nat) (first second : Arena) :
    (project.putBlocks index first).putBlocks index second = project.putBlocks index second := by
  have same : ((project.putBlocks index first).putBlocks index second).targets =
      (project.putBlocks index second).targets := by
    apply List.ext_getElem?
    intro other
    simp only [putBlocks, get_modifyTarget]
    by_cases hit : index = other
    · subst hit
      cases project.targets[index]? <;> simp
    · simp [hit]
  simp only [putBlocks, modifyTarget] at same ⊢
  rw [same]

theorem get_putBlocks (found : project.targets[index]? = some target) (blocks : Arena) :
    (project.putBlocks index blocks).targets[index]? = some { target with blocks := blocks } := by
  simp [putBlocks, get_modifyTarget, found]

@[simp]
theorem after_onBlocks (index : Nat) (change : Revision Arena α) (project : Project)
    {success : α → Project → Prop} {failure : Fault → Project → Prop} :
    After (onBlocks index change) project success failure ↔
      (∀ target, project.targets[index]? = some target →
        After change target.blocks (fun value blocks => success value (project.putBlocks index blocks))
          fun fault blocks => failure fault (project.putBlocks index blocks)) ∧
      (project.targets[index]? = none → failure (.editingTargetMissing index) project) := by
  cases found : project.targets[index]? with
  | none =>
    have ended : onBlocks index change project = .error (.editingTargetMissing index) project := by
      simp [onBlocks, found]
    rw [after_of_error ended]
    simp
  | some target =>
    simp only [reduceCtorEq, false_implies, and_true, Option.some.injEq, forall_eq']
    cases ran : change target.blocks with
    | ok value blocks =>
      have ended : onBlocks index change project = .ok value (project.putBlocks index blocks) := by
        simp [onBlocks, found, ran, putBlocks]
      rw [after_of_ok ended, after_of_ok ran]
    | error fault blocks =>
      have ended : onBlocks index change project = .error fault (project.putBlocks index blocks) := by
        simp [onBlocks, found, ran, putBlocks]
      rw [after_of_error ended, after_of_error ran]

theorem after_onBlocks_of_get? (found : project.targets[index]? = some target)
    (change : Revision Arena α) {success : α → Project → Prop} {failure : Fault → Project → Prop} :
    After (onBlocks index change) project success failure ↔
      After change target.blocks (fun value blocks => success value (project.putBlocks index blocks))
        fun fault blocks => failure fault (project.putBlocks index blocks) := by
  simp [found]

theorem requireEditing_eq_ok (required : project.requireEditing = .ok (index, target)) :
    project.editing = some index ∧ project.targets[index]? = some target := by
  unfold requireEditing at required
  split at required
  · cases required
  · rename_i chosen editing
    split at required
    · cases required
    · rename_i found
      cases required
      exact ⟨editing, found⟩

theorem requireEditing_of_get? (chosen : project.editing = some index)
    (found : project.targets[index]? = some target) :
    project.requireEditing = .ok (index, target) := by
  simp [requireEditing, chosen, found]

@[simp]
theorem after_editingIndex (project : Project) {success : Nat → Project → Prop}
    {failure : Fault → Project → Prop} :
    After editingIndex project success failure ↔
      (∀ index target, project.requireEditing = .ok (index, target) → success index project) ∧
        ∀ fault, project.requireEditing = .error fault → failure fault project := by
  simp [editingIndex]

theorem maintains_editingIndex {invariant : Project → Prop} : Maintains invariant editingIndex := by
  intro project holds
  rw [after_editingIndex]
  exact ⟨fun _ _ _ => holds, fun _ _ => holds⟩

theorem requireEditing_putBlocks (required : project.requireEditing = .ok (index, target))
    (blocks : Arena) :
    (project.putBlocks index blocks).requireEditing = .ok (index, { target with blocks := blocks }) := by
  obtain ⟨edited, found⟩ := requireEditing_eq_ok required
  have same : (project.putBlocks index blocks).editing = some index := edited
  rw [requireEditing, same]
  simp only [get_putBlocks found]

/-- A change of the blocks of the editing target, seen from the project. -/
theorem onEditingBlocks_eq_ok_iff (required : project.requireEditing = .ok (index, target))
    {change : Revision Arena α} {value : α} {next : Project} :
    onEditingBlocks change project = .ok value next ↔
      ∃ blocks, change target.blocks = .ok value blocks ∧ next = project.putBlocks index blocks := by
  have found := (requireEditing_eq_ok required).2
  have chosen : After editingIndex project
      (fun position next => position = index ∧ next = project) fun _ _ => False := by
    simp [required]
  have runs : onEditingBlocks change project = onBlocks index change project := by
    obtain ⟨position, same, opened, rfl, rfl⟩ := exists_ok_of_after chosen
    simp only [onEditingBlocks, bind, EStateM.bind, opened]
  rw [runs]
  cases ran : change target.blocks with
  | ok result blocks =>
    have ended : onBlocks index change project = .ok result (project.putBlocks index blocks) := by
      simp [onBlocks, found, ran, putBlocks]
    rw [ended]
    constructor
    · rintro ⟨⟩
      exact ⟨blocks, rfl, rfl⟩
    · rintro ⟨_, ⟨⟩, rfl⟩
      rfl
  | error fault blocks => simp [onBlocks, found, ran]

namespace Every

variable {condition : Target → Prop}

theorem get (every : project.Every condition) (found : project.targets[index]? = some target) :
    condition target :=
  every target (List.mem_of_getElem? found)

theorem modifyTarget (every : project.Every condition) {change : Target → Target}
    (keeps : ∀ target, project.targets[index]? = some target → condition (change target)) :
    (project.modifyTarget index change).Every condition := by
  intro target member
  obtain ⟨other, found⟩ := List.mem_iff_getElem?.mp member
  rw [get_modifyTarget] at found
  split at found
  · rename_i same
    subst same
    obtain ⟨old, lookup, rfl⟩ := Option.map_eq_some_iff.mp found
    exact keeps old lookup
  · exact every.get found

end Every

end Project

namespace Session

variable {α : Type}

@[simp]
theorem after_onProject (change : Revision Project α) (session : Session)
    {success : α → Session → Prop} {failure : Fault → Session → Prop} :
    After (onProject change) session success failure ↔
      After change session.project
        (fun value project => success value { session with project := project })
        fun fault project => failure fault { session with project := project } := by
  cases ran : change session.project with
  | ok value project =>
    rw [after_of_ok ran]
    simp [After, onProject, ran]
  | error fault project =>
    rw [after_of_error ran]
    simp [After, onProject, ran]

theorem executeAll_cons (session : Session) (request : Request) (rest : List Request) :
    session.executeAll (request :: rest) =
      ((session.execute request).1 :: ((session.execute request).2.executeAll rest).1,
        ((session.execute request).2.executeAll rest).2) := by
  rw [executeAll]

end Session

end BlockGraph
