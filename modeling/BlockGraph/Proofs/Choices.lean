import BlockGraph.Proofs.Choices.Groups
import BlockGraph.Proofs.References
import BlockGraph.Proofs.Repetition

/-!
Choices that are shown can be written. The groups of labels behind a field hold the labels of the flat
list of options, and a write looks its value up in that list, so that each label stands for its first
option: a message and an entity by their ids, a menu entry by its code.
-/

set_option autoImplicit false

namespace BlockGraph

open Revision FieldWrite

/-- The label stands in one of the groups. -/
def ChoiceSet.Lists (choices : ChoiceSet) (label : String) : Prop :=
  ∃ group labels, choices.get? group = some labels ∧ label ∈ labels

namespace ChoiceContext

variable {context : ChoiceContext} {opcode field current block label : String} {choices : ChoiceSet}

theorem mem_allLabels_of_lists (lists : choices.Lists label) : label ∈ choices.allLabels := by
  obtain ⟨group, listed, found, member⟩ := lists
  exact List.mem_flatMap.mpr ⟨(group, listed), (choices.get?_eq_some_iff group listed).mp found, member⟩

/-- A label that is shown is that of an option. -/
theorem exists_option_of_lists (offered : context.resolve? opcode field current block = some choices)
    (lists : choices.Lists label) :
    ∃ options option, context.options? opcode field current block = some options ∧
      options.find? (fun option => option.label = label) = some option := by
  obtain ⟨options, known, same⟩ := exists_options_of_resolve? offered
  have listed : label ∈ labels options := same ▸ mem_allLabels_of_lists lists
  obtain ⟨named, member, isLabel⟩ := List.mem_map.mp listed
  have found : (options.find? fun option => option.label = label).isSome :=
    List.find?_isSome.mpr ⟨named, member, by simpa using isLabel⟩
  obtain ⟨option, first⟩ := Option.isSome_iff_exists.mp found
  exact ⟨options, option, known, first⟩

end ChoiceContext

/-- The field that holds an option: an entity by its label and id, anything else by its code. -/
def MenuOption.field (option : MenuOption) (name : String) : Field :=
  if Catalog.isReferenceField name then .reference option.label option.code else .plain option.code

theorem Catalog.field_of_isMessageField {opcode field : String}
    (isMessage : isMessageField opcode field = true) : field = "BROADCAST_OPTION" := by
  simp only [isMessageField, Bool.and_eq_true, decide_eq_true_eq] at isMessage
  exact isMessage.1

namespace FieldWrite

variable {project : Project} {index : Nat} {target : Target} {slot : Slot}
  {opcode current label : String} {options : List MenuOption} {option : MenuOption}

/-- The first message of a name is the first option with that label. -/
theorem broadcastByName?_of_option
    (first : (ChoiceContext.entityOptions project.messages).find?
      (fun option => option.label = label) = some option) :
    ∃ message, project.broadcastByName? label = some message ∧ message.id = option.code := by
  rw [ChoiceContext.entityOptions, List.find?_map] at first
  obtain ⟨message, found, rfl⟩ := Option.map_eq_some_iff.mp first
  exact ⟨message, found, rfl⟩

/-- Without an editor, a label stands for the first option that has it, and nothing has to be created
for that. -/
theorem contentField_of_option (found : project.targets[index]? = some target)
    (known : (⟨project, index, .headless⟩ : ChoiceContext).options? opcode slot.field current
      slot.block = some options)
    (first : options.find? (fun option => option.label = label) = some option)
    (named : Catalog.isMessageField opcode slot.field = true → Text.isBlankText label = false) :
    ∃ content, interpret ⟨project, index, .headless⟩ opcode current slot label = .ok content ∧
      contentField content project = .ok (option.field slot.field, option.code) project ∧
      (Catalog.isReferenceField slot.field = true → ∀ text, content ≠ .plain text) := by
  have labelled : option.label = label := by simpa using List.find?_some first
  by_cases isMessage : Catalog.isMessageField opcode slot.field = true
  · have isOption := Catalog.field_of_isMessageField isMessage
    have isReference : Catalog.isReferenceField slot.field = true := by rw [isOption]; rfl
    refine ⟨.message label, by simp [interpret, isMessage, named isMessage], ?_, by simp⟩
    -- A message is looked up by its name, and not among the options: both are the messages of the stage.
    have listed := Project.options?_reference found isReference opcode current slot.block
    rw [known, Option.getD_some, isOption] at listed
    subst listed
    obtain ⟨message, isKnown, code⟩ := broadcastByName?_of_option first
    rw [contentField_of_known isKnown]
    simp [code, MenuOption.field, isReference, labelled]
  · by_cases isReference : Catalog.isReferenceField slot.field = true
    · refine ⟨.reference option.label option.code, ?_, ?_, by simp⟩
      · simp [interpret, isMessage, isReference, known, first]
      · simp only [contentField, MenuOption.field, isReference, if_true]
        rfl
    · refine ⟨.plain option.code, ?_, ?_, fun contrary => absurd contrary isReference⟩
      · simp [interpret, isMessage, isReference, known, first]
      · simp only [contentField, MenuOption.field, isReference]
        rfl

end FieldWrite

namespace Project

variable {project : Project} {index : Nat} {target : Target} {id name : String}

/-- A label that is written to a slot which is there puts the first option with that label into its
field. Only a color picker checks the text that it gets. -/
theorem setField_of_option (required : project.requireEditing = .ok (index, target)) {slot : Slot}
    (resolves : Resolves target.blocks id name slot target.blocks) (bare : slot.plug = none)
    {owner : Block} (stored : target.blocks.get? slot.block = some owner)
    {label : String} {options : List MenuOption} {option : MenuOption}
    (known : (⟨project, index, .headless⟩ : ChoiceContext).options? owner.opcode slot.field
      (((owner.fields.get? slot.field).map Field.value).getD "") slot.block = some options)
    (first : options.find? (fun option => option.label = label) = some option)
    (named : Catalog.isMessageField owner.opcode slot.field = true → Text.isBlankText label = false)
    (fits : owner.opcode = "colour_picker" → Catalog.isReferenceField slot.field = true) :
    setField .headless id name label project = .ok ⟨slot.field, option.code⟩
      (project.putBlocks index (target.blocks.modifyBlock slot.block
        (·.withField slot.field (option.field slot.field)))) := by
  have found := (requireEditing_eq_ok required).2
  obtain ⟨content, interpreted, registered, isEntity⟩ :=
    contentField_of_option found known first named
  have valid : validate owner.opcode slot content = .ok () := by
    rcases validate_settled slot owner.opcode content bare with ⟨text, isPlain, isPicker, -⟩ | ⟨-, valid⟩
    · exact absurd isPlain (isEntity (fits isPicker) text)
    · exact valid
  have ended : After (setField .headless id name label) project (fun update next =>
      update = ⟨slot.field, option.code⟩ ∧
        next = project.putBlocks index (target.blocks.modifyBlock slot.block
          (·.withField slot.field (option.field slot.field)))) fun _ _ => False := by
    rw [after_setField_settled required resolves bare stored interpreted, valid]
    simp only [after_bind, after_check, reduceCtorEq, false_implies, implies_true, and_true]
    intro _ _
    rw [after_of_ok registered, after_onBlocks_of_get? found, Arena.after_update_of_get? stored]
    exact ⟨rfl, rfl⟩
  obtain ⟨_, _, ended, rfl, rfl⟩ := exists_ok_of_after ended
  exact ended

/-- A field behind which a listing shows choices, under the name by which a request reaches it: a field
of the block itself, or the main field of the shadow in an input of that name. -/
inductive Advertised (arena : Arena) (id name : String) : String → Block → String → Field → Prop
  | own {block : Block} {held : Field} (found : arena.get? id = some block)
      (isField : block.fields.get? name = some held) : Advertised arena id name id block name held
  | plugged {block shadow : Block} {child field : String} {held : Field}
      (found : arena.get? id = some block) (notField : block.fields.get? name = none)
      (plugged : block.plugged? name = some child) (stored : arena.get? child = some shadow)
      (isShadow : Catalog.kind shadow.opcode = .shadow)
      (isMain : Catalog.primaryField? shadow.opcode = some field)
      (isField : shadow.fields.get? field = some held) :
      Advertised arena id name child shadow field held

namespace Advertised

variable {arena : Arena} {owner field : String} {block : Block} {held : Field}

theorem stored (advertised : Advertised arena id name owner block field held) :
    arena.get? owner = some block ∧ block.fields.get? field = some held := by
  cases advertised with
  | own found isField => exact ⟨found, isField⟩
  | plugged _ _ _ stored _ _ isField => exact ⟨stored, isField⟩

theorem resolves (advertised : Advertised arena id name owner block field held) :
    Resolves arena id name ⟨owner, field, none⟩ arena := by
  cases advertised with
  | own found isField => exact .own found (by simp [Dict.contains, isField])
  | plugged found notField plugged stored isShadow isMain isField =>
    refine .plugged found (by simp [Dict.contains, notField]) plugged stored ?_
    simp [shadowField, isShadow, isMain, Option.filter_some, Dict.contains, isField]

end Advertised

/-- Every choice that is shown for a field can be written there, without an editor: the first option of
that label is what the field gets and what is reported. No message is created, and no other block
changes. Only a color picker may refuse a text, and a message has to have a name. -/
theorem setField_choice (required : project.requireEditing = .ok (index, target))
    {owner field : String} {block : Block} {held : Field}
    (advertised : Advertised target.blocks id name owner block field held)
    (notPicker : block.opcode ≠ "colour_picker") {choices : ChoiceSet} {label : String}
    (offered : (⟨project, index, .headless⟩ : ChoiceContext).resolve? block.opcode field held.value
      owner = some choices)
    (lists : choices.Lists label)
    (named : Catalog.isMessageField block.opcode field = true → Text.isBlankText label = false) :
    ∃ options option next,
      (⟨project, index, .headless⟩ : ChoiceContext).options? block.opcode field held.value owner =
        some options ∧
      options.find? (fun option => option.label = label) = some option ∧
      setField .headless id name label project = .ok ⟨field, option.code⟩ next ∧
      next = project.putBlocks index
        (target.blocks.modifyBlock owner (·.withField field (option.field field))) ∧
      next.targets.map Target.broadcasts = project.targets.map Target.broadcasts := by
  obtain ⟨stored, isField⟩ := advertised.stored
  obtain ⟨options, option, known, first⟩ := ChoiceContext.exists_option_of_lists offered lists
  have current : ((block.fields.get? field).map Field.value).getD "" = held.value := by
    rw [isField, Option.map_some, Option.getD_some]
  refine ⟨options, option, _, known, first, ?_, rfl, ?_⟩
  · apply setField_of_option required advertised.resolves rfl stored ?_ first named
      fun isPicker => absurd isPicker notPicker
    rw [current]
    exact known
  · apply map_modifyTarget
    intro _
    rfl

/-- A sprite that sends a message, and a stage with two messages of one name. -/
def echoing : Project :=
  .ofTargets [
    { name := "Stage"
      isStage := true
      broadcasts := [⟨"m1", "go", .text "go"⟩, ⟨"m2", "go", .text "go"⟩] },
    { name := "Cat"
      isStage := false
      blocks :=
        { blocks := .ofList
            [("a", { opcode := "event_broadcast", topLevel := true,
                     inputs := [⟨"BROADCAST_INPUT", some "s", some "s"⟩] }),
              ("s", { opcode := "event_broadcast_menu", parent := some "a",
                      fields := .ofList [("BROADCAST_OPTION", .plain "stop")] })]
          scripts := ["a"] } }] ∅

/-- The label that is shown twice stands for the first of the two messages. -/
theorem setField_choice_echoing :
    ∃ choices next, (⟨echoing, 1, .headless⟩ : ChoiceContext).resolve? "event_broadcast_menu"
        "BROADCAST_OPTION" "stop" "s" = some choices ∧
      choices.get? "messages" = some ["go", "go"] ∧
      setField .headless "a" "BROADCAST_INPUT" "go" echoing =
        .ok ⟨"BROADCAST_OPTION", "m1"⟩ next ∧
      next.targets.map Target.broadcasts = echoing.targets.map Target.broadcasts := by
  obtain ⟨target, required, advertised⟩ :
      ∃ target, echoing.requireEditing = .ok (1, target) ∧
        Advertised target.blocks "a" "BROADCAST_INPUT" "s"
          { opcode := "event_broadcast_menu", parent := some "a",
            fields := .ofList [("BROADCAST_OPTION", .plain "stop")] }
          "BROADCAST_OPTION" (.plain "stop") :=
    ⟨_, rfl, .plugged rfl rfl rfl rfl (by decide +kernel) (by decide +kernel) rfl⟩
  have offered : (⟨echoing, 1, .headless⟩ : ChoiceContext).resolve? "event_broadcast_menu"
      "BROADCAST_OPTION" "stop" "s" = some (.ofList [("messages", ["go", "go"])]) := by
    decide +kernel
  obtain ⟨options, option, next, known, first, wrote, -, messages⟩ :=
    setField_choice required advertised (by decide) offered ⟨"messages", _, rfl, List.mem_cons_self⟩
      fun _ => by decide
  have listed : (⟨echoing, 1, .headless⟩ : ChoiceContext).options? "event_broadcast_menu"
      "BROADCAST_OPTION" "stop" "s" = some [⟨"go", "m1"⟩, ⟨"go", "m2"⟩] := by
    decide +kernel
  cases known.symm.trans listed
  cases first
  exact ⟨_, next, offered, rfl, wrote, messages⟩

end Project

end BlockGraph
