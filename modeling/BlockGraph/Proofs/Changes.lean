import BlockGraph.Proofs.Contents
import BlockGraph.Proofs.Entities
import BlockGraph.Proofs.Requests
import Mathlib.Logic.Relation

/-!
What requests do to a project, in single changes: blocks of one target are rebuilt without a change of
what their fields say, a field is written with something that it may hold, a variable or a list gets a
free name, or a message is added to the stage. Every run of requests, failures included, is a sequence
of such changes, so a condition holds after all runs if each change keeps it.
-/

set_option autoImplicit false

namespace BlockGraph

open Revision Relation

/-- What may be written to a field: plain text, an option of the field, or a message. -/
inductive ChoiceContext.Offers (context : ChoiceContext) (name : String) : Field → Prop
  | plain (text : String) : Offers context name (.plain text)
  | option {opcode current block : String} {option : MenuOption} :
      option ∈ (context.options? opcode name current block).getD [] →
      Offers context name (.reference option.label option.code)
  | message {message : Entity} : name = "BROADCAST_OPTION" → message ∈ context.project.messages →
      Offers context name (.reference message.name message.id)

namespace Project

/-- A single change of a project. -/
inductive Change (editor : Editor) (project : Project) : Project → Prop
  | tuned {next : Project} : next.targets = project.targets → Change editor project next
  | rebuilt {index : Nat} {target : Target} {blocks : Arena} :
      project.targets[index]? = some target → target.blocks.Inherits blocks →
      Change editor project (project.putBlocks index blocks)
  | wrote {index : Nat} {target : Target} {id name : String} {field : Field} :
      project.targets[index]? = some target →
      (⟨project, index, editor⟩ : ChoiceContext).Offers name field →
      Change editor project (project.putBlocks index (target.blocks.modifyBlock id fun block =>
        { block with fields := block.fields.insert name field }))
  | declared {index : Nat} {owner : Target} {kind : EntityKind} {entity : Entity} :
      project.targets[index]? = some owner →
      entity.name ∉ project.takenNames kind index owner.isStage → entity.id ∉ project.entityIds →
      Change editor project (project.modifyTarget index (kind.add entity))
  | announced {index : Nat} {message : Entity} : project.stageIndex? = some index →
      message.name ∉ project.messages.map Entity.name → message.id ∉ project.entityIds →
      Change editor project (project.modifyTarget index (·.withMessage message))

variable {α : Type} {editor : Editor} {start project next : Project}

/-- Changes one after the other. -/
abbrev Changes (editor : Editor) : Project → Project → Prop :=
  ReflTransGen (Change editor)

theorem changes_onBlocks (index : Nat) {change : Revision Arena α}
    (inherits : ∀ arena : Arena, Maintains arena.Inherits change) :
    Maintains (Changes editor start) (onBlocks index change) := by
  intro project reached
  rw [after_onBlocks]
  refine ⟨fun target found => ?_, fun _ => reached⟩
  apply (inherits target.blocks target.blocks (.refl _)).mono
  · intro _ blocks inherited
    exact reached.tail (.rebuilt found inherited)
  · intro _ blocks inherited
    exact reached.tail (.rebuilt found inherited)

theorem changes_onEditingBlocks {change : Revision Arena α}
    (inherits : ∀ arena : Arena, Maintains arena.Inherits change) :
    Maintains (Changes editor start) (onEditingBlocks change) :=
  maintains_editingIndex.bind fun index => changes_onBlocks index inherits

/-- A message that is asked for is there afterwards. -/
theorem changes_ensureBroadcast (reached : Changes editor start project) (name : String) :
    After (ensureBroadcast name) project
      (fun id next => Changes editor start next ∧
        ∃ message ∈ next.messages, message.name = name ∧ message.id = id)
      fun _ => Changes editor start := by
  have counted : Changes editor start (project.freshEntityId "broadcast").2 :=
    reached.tail (.tuned rfl)
  apply (announces_of_ensureBroadcast project name).mono
  · intro _ _ announces
    cases announces with
    | @known message known =>
      have named : message.name = name := by simpa using List.find?_some known
      exact ⟨reached, message, List.mem_of_find?_eq_some known, named, rfl⟩
    | created unknown isFirst =>
      have free : name ∉ project.messages.map Entity.name := by
        intro listed
        obtain ⟨message, member, named⟩ := List.mem_map.mp listed
        have missed := List.find?_eq_none.mp unknown message member
        exact missed (by simpa using named)
      have fresh := Identifier.make_freshNumber_not_mem project.entityIds "broadcast" project.counter
      have staged : (project.freshEntityId "broadcast").2.stageIndex? = some _ := isFirst
      refine ⟨counted.tail (.announced staged free fresh), ⟨_, name, .text name⟩, ?_, rfl, rfl⟩
      have added := messages_withMessage staged ⟨(project.freshEntityId "broadcast").1, name, .text name⟩
      exact added ▸ List.mem_append_right _ List.mem_cons_self
  · rintro _ _ ⟨-, rfl⟩
    exact counted

/-- What a value means for a field is something that the field may hold. -/
theorem changes_contentField {index : Nat} {opcode current value : String} {slot : FieldWrite.Slot}
    {content : FieldWrite.Content} (reached : Changes editor start project)
    (meant : FieldWrite.interpret ⟨project, index, editor⟩ opcode current slot value = .ok content) :
    After (FieldWrite.contentField content) project
      (fun result next => Changes editor start next ∧
        (⟨next, index, editor⟩ : ChoiceContext).Offers slot.field result.1)
      fun _ => Changes editor start := by
  unfold FieldWrite.interpret at meant
  split at meant
  · rename_i isMessage
    split at meant
    · cases meant
    · cases meant
      have named : slot.field = "BROADCAST_OPTION" := by
        simp only [Catalog.isMessageField, Bool.and_eq_true, decide_eq_true_eq] at isMessage
        exact isMessage.1
      rw [FieldWrite.contentField, after_bind]
      apply (changes_ensureBroadcast reached value).mono
      · rintro _ next ⟨reached, message, member, rfl, rfl⟩
        exact ⟨reached, .message named member⟩
      · intro _ _ reached
        exact reached
  · simp only at meant
    split at meant
    · split at meant
      · rename_i option chosen
        cases meant
        rcases Option.or_eq_some_iff.mp chosen with labelled | ⟨-, coded⟩
        · exact ⟨reached, .option (List.mem_of_find?_eq_some labelled)⟩
        · exact ⟨reached, .option (List.mem_of_find?_eq_some coded)⟩
      · cases meant
    · cases meant
      exact ⟨reached, .plain _⟩

theorem changes_write (index : Nat) (slot : FieldWrite.Slot) (value : String) :
    Maintains (Changes editor start) (FieldWrite.write editor index slot value) := by
  intro project reached
  rw [FieldWrite.write, after_bind, after_onBlocks]
  refine ⟨fun target found => ?_, fun _ => reached⟩
  rw [Arena.after_stored, putBlocks_same found]
  refine ⟨fun owner _ => ?_, fun _ => reached⟩
  simp only [after_bind, after_get, after_check]
  refine ⟨fun content meant => ⟨fun _ _ => ?_, fun _ _ => reached⟩, fun _ _ => reached⟩
  apply (changes_contentField reached meant).mono
  · rintro ⟨field, reported⟩ next ⟨reached, offered⟩
    rw [after_onBlocks]
    refine ⟨fun target found => ?_, fun _ => reached⟩
    rw [Arena.after_update]
    refine ⟨fun _ => reached.tail (.wrote found offered), fun _ => ?_⟩
    rw [putBlocks_same found]
    exact reached
  · intro _ _ reached
    exact reached

theorem changes_declare (kind : EntityKind) (name : String) (scope : Scope) :
    Maintains (Changes editor start) (declare kind name scope) := by
  simp only [declare]
  split
  · exact .throw _
  apply Maintains.bind_get
  intro project reached
  rw [after_bind, after_check]
  refine ⟨?_, fun _ _ => reached⟩
  rintro ⟨index, owner⟩ owned
  simp only
  split
  · exact reached
  · rename_i taken
    simp only [after_bind, after_set, after_pure]
    have free : Text.trim name ∉ project.takenNames kind index owner.isStage := by simpa using taken
    have counted : Changes editor start (project.freshEntityId kind.stem).2 :=
      reached.tail (.tuned rfl)
    have fresh := Identifier.make_freshNumber_not_mem project.entityIds kind.stem project.counter
    exact counted.tail (.declared (declarationOwner_eq_ok owned).1 free fresh)

theorem changes_selectSprite (name : String) :
    Maintains (Changes editor start) (selectSprite name) := by
  apply Maintains.bind_get
  intro project reached
  split
  · exact reached
  · exact reached.tail (.tuned rfl)

theorem changes_selectStage : Maintains (Changes editor start) selectStage := by
  apply Maintains.bind_get
  intro project reached
  split
  · exact reached.tail (.tuned rfl)
  · exact reached

theorem stable_changes (editor : Editor) (start : Project) :
    Stable editor (Changes editor start) where
  resolve index block name :=
    changes_onBlocks index fun _ => FieldWrite.inherits_resolve block name
  write := changes_write
  unplug index plug := changes_onBlocks index fun _ => FieldWrite.inherits_unplug plug
  place index project target spec _ :=
    changes_onBlocks index fun _ => NewBlock.inherits_place project target spec
  discard index id := changes_onBlocks index fun _ => Arena.inherits_discard id
  declare := changes_declare
  connect source target placement :=
    changes_onEditingBlocks fun _ => Arena.inherits_connect source target placement
  detach id := changes_onEditingBlocks fun _ => Arena.inherits_detach id
  delete id := changes_onEditingBlocks fun _ => Arena.inherits_delete id
  selectSprite := changes_selectSprite
  selectStage := changes_selectStage

end Project

/-- A run of requests is a sequence of changes. -/
theorem Session.changes_executeAll (session : Session) (requests : List Request) :
    Project.Changes session.editor session.project (session.executeAll requests).2.project :=
  executeAll_stable (Project.stable_changes session.editor session.project) .refl requests

/-- A condition that each change keeps holds after all runs. -/
theorem Session.holds_of_changes {session : Session} {condition : Project → Prop}
    (keeps : ∀ project next, condition project → Project.Change session.editor project next →
      condition next)
    (holds : condition session.project) (requests : List Request) :
    condition (session.executeAll requests).2.project := by
  have changes := session.changes_executeAll requests
  generalize (session.executeAll requests).2.project = reached at changes ⊢
  induction changes with
  | refl => exact holds
  | tail _ change ih => exact keeps _ _ ih change

end BlockGraph
