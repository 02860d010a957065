import BlockGraph.Proofs.Catalog
import BlockGraph.Proofs.Choices.Groups
import BlockGraph.Proofs.Outline.Headings
import BlockGraph.Proofs.Text

/-!
Lines without newlines. Block types, menus and markers have none, so a line of a listing has one only
where a name or a value of the project has one, or a label that the editor offers.
-/

set_option autoImplicit false

namespace BlockGraph

open Text

namespace Catalog

theorem specs_oneRow : ∀ spec ∈ specs, OneRow spec.opcode ∧
    ∀ input ∈ spec.inputs, OneRow input.name := by
  decide +kernel

theorem shadows_oneRow : ∀ entry ∈ shadows, OneRow entry.1 := by
  decide +kernel

/-- No type of the catalog has a newline in its name. -/
theorem oneRow_opcode {opcode : String} (known : kind opcode ≠ .outOfScope) : OneRow opcode := by
  unfold kind at known
  split at known
  · rename_i isSpec
    obtain ⟨spec, found⟩ := Option.isSome_iff_exists.mp isSpec
    obtain ⟨member, rfl⟩ := spec?_eq_some found
    exact (specs_oneRow spec member).1
  · split at known
    · rename_i listed
      obtain ⟨entry, member, same⟩ := List.any_eq_true.mp listed
      rw [← of_decide_eq_true same]
      exact shadows_oneRow entry member
    · exact absurd rfl known

theorem oneRow_expectedInputs {opcode name : String} (expected : name ∈ expectedInputs opcode) :
    OneRow name := by
  unfold expectedInputs at expected
  cases found : spec? opcode with
  | none => simp [found] at expected
  | some spec =>
    have listed : name ∈ spec.inputs.map InputSpec.name := by simpa [found] using expected
    obtain ⟨input, member, rfl⟩ := List.mem_map.mp listed
    exact (specs_oneRow spec (spec?_eq_some found).1).2 input member

end Catalog

/-- A block without a newline in its names and values. -/
@[mk_iff]
structure Block.OneRow (block : Block) : Prop where
  fields : ∀ entry ∈ block.fields.entries, Text.OneRow entry.1 ∧ Text.OneRow entry.2.value
  inputs : ∀ input ∈ block.inputs, Text.OneRow input.name

instance (block : Block) : Decidable block.OneRow :=
  decidable_of_iff _ (Block.oneRow_iff block).symm

@[mk_iff]
structure Target.OneRow (target : Target) : Prop where
  name : Text.OneRow target.name
  blocks : ∀ entry ∈ target.blocks.blocks.entries, Text.OneRow entry.1 ∧ entry.2.OneRow
  entities : ∀ entity ∈ target.entities, Text.OneRow entity.name
  costumes : ∀ costume ∈ target.costumes, Text.OneRow costume
  sounds : ∀ sound ∈ target.sounds, Text.OneRow sound

instance (target : Target) : Decidable target.OneRow :=
  decidable_of_iff _ (Target.oneRow_iff target).symm

/-- A project without a newline in its names and values. -/
def Project.OneRow (project : Project) : Prop :=
  ∀ target ∈ project.targets, target.OneRow

instance (project : Project) : Decidable project.OneRow :=
  inferInstanceAs (Decidable (∀ target ∈ project.targets, target.OneRow))

/-- An editor without a newline in the labels of its menus. -/
def Editor.OneRow (editor : Editor) : Prop :=
  ∀ block field current options, editor.liveOptions? block field current = some options →
    ∀ option ∈ options, Text.OneRow option.label

/-- Choices without a newline in their labels. -/
def ChoiceSet.OneRow (choices : ChoiceSet) : Prop :=
  ∀ group labels, choices.get? group = some labels →
    Text.OneRow group ∧ ∀ label ∈ labels, Text.OneRow label

/-- Groups of options without a newline in their labels. -/
def ChoiceContext.OneRow (groups : List ChoiceContext.Group) : Prop :=
  ∀ group ∈ groups, Text.OneRow group.1 ∧ ∀ option ∈ group.2, Text.OneRow option.label

theorem ChoiceSet.oneRow_display {choices : ChoiceSet} (oneRow : choices.OneRow) :
    Text.OneRow choices.display := by
  rw [display, oneRow_append, oneRow_append]
  refine ⟨⟨by decide, oneRow_intercalate (by decide) ?_⟩, by decide⟩
  intro part member
  obtain ⟨⟨group, labels⟩, inside, rfl⟩ := List.mem_map.mp member
  obtain ⟨named, labelled⟩ := oneRow group labels ((Dict.get?_eq_some_iff _ _ _).mpr inside)
  simp only [oneRow_append]
  exact ⟨⟨⟨named, by decide⟩, oneRow_intercalate (by decide) labelled⟩, by decide⟩

namespace ChoiceContext

theorem oneRow_labels {options : List MenuOption}
    (oneRow : ∀ option ∈ options, Text.OneRow option.label) :
    ∀ label ∈ labels options, Text.OneRow label := by
  intro label member
  obtain ⟨option, inside, rfl⟩ := List.mem_map.mp member
  exact oneRow option inside

theorem oneRow_insert {choices : ChoiceSet} (oneRow : choices.OneRow) {group : String}
    {added : List String} (named : Text.OneRow group) (labelled : ∀ label ∈ added, Text.OneRow label) :
    ChoiceSet.OneRow (choices.insert group added) := by
  intro other labels found
  rw [Dict.get?_insert] at found
  split at found
  · rename_i same
    cases found
    exact ⟨same ▸ named, labelled⟩
  · exact oneRow other labels found

theorem oneRow_choicesOf {groups : List Group} (increasing : Increasing groups)
    (oneRow : OneRow groups) : (choicesOf groups).OneRow := by
  intro name shown found
  rw [Dict.get?_eq_some_iff, entries_choicesOf increasing] at found
  obtain ⟨group, kept, same⟩ := List.mem_map.mp found
  cases same
  obtain ⟨named, labelled⟩ := oneRow group (List.mem_of_mem_filter kept)
  exact ⟨named, oneRow_labels labelled⟩

theorem oneRow_sameOptions {names : List String} (oneRow : ∀ name ∈ names, Text.OneRow name) :
    ∀ option ∈ sameOptions names, Text.OneRow option.label := by
  intro option member
  obtain ⟨name, inside, rfl⟩ := List.mem_map.mp member
  exact oneRow name inside

theorem oneRow_entityOptions {entities : List Entity}
    (oneRow : ∀ entity ∈ entities, Text.OneRow entity.name) :
    ∀ option ∈ entityOptions entities, Text.OneRow option.label := by
  intro option member
  obtain ⟨entity, inside, rfl⟩ := List.mem_map.mp member
  exact oneRow entity inside

theorem mem_of_stage {α : Type} {project : Project} {pick : Target → List α} {item : α}
    (member : item ∈ (project.stage?.map pick).getD []) :
    ∃ target ∈ project.targets, item ∈ pick target := by
  cases found : project.stage? with
  | none => simp [found] at member
  | some stage =>
    rw [found] at member
    exact ⟨stage, List.mem_of_find?_eq_some found, member⟩

theorem mem_of_inScope {project : Project} {index : Nat} {pick : Target → List Entity}
    {entity : Entity} (member : entity ∈ (project.inScope index pick).map Prod.fst) :
    ∃ target ∈ project.targets, entity ∈ pick target := by
  unfold Project.inScope at member
  dsimp only at member
  split at member
  · rw [List.map_map] at member
    exact mem_of_stage (by simpa using member)
  · rename_i target found
    have listed := List.mem_of_getElem? found
    split at member
    · rw [List.map_map] at member
      exact ⟨target, listed, by simpa using member⟩
    · rw [List.map_append, List.map_map, List.map_map] at member
      rcases List.mem_append.mp member with own | global
      · exact ⟨target, listed, by simpa using own⟩
      · exact mem_of_stage (by simpa using global)

theorem fixedMenus_oneRow : ∀ menu ∈ Catalog.fixedMenus, ∀ option ∈ menu.options,
    Text.OneRow option.label := by
  decide +kernel

theorem spriteMenus_oneRow : ∀ menu ∈ Catalog.spriteMenus, ∀ option ∈ menu.2,
    Text.OneRow option.label := by
  decide +kernel

theorem oneRow_properties {project : Project} (oneRow : project.OneRow) {properties : List String}
    (fixed : ∀ property ∈ properties, Text.OneRow property) {target : Option Target}
    (known : ∀ owner, target = some owner → owner ∈ project.targets) :
    ∀ option ∈ sameOptions properties ++
      sameOptions (((target.map Target.vars).getD []).map Entity.name),
      Text.OneRow option.label := by
  intro option member
  rcases List.mem_append.mp member with property | declared
  · exact oneRow_sameOptions fixed option property
  · refine oneRow_sameOptions ?_ option declared
    intro name listed
    obtain ⟨entity, inside, rfl⟩ := List.mem_map.mp listed
    cases target with
    | none => cases inside
    | some owner =>
      exact (oneRow owner (known owner rfl)).entities entity
        (List.mem_append_left _ (List.mem_append_left _ inside))

theorem oneRow_propertyOptions? {context : ChoiceContext} (oneRow : context.project.OneRow)
    {blocks : Arena} {block : String} {options : List MenuOption}
    (found : context.propertyOptions? blocks block = some options) :
    ∀ option ∈ options, Text.OneRow option.label := by
  unfold propertyOptions? at found
  obtain ⟨owner, -, found⟩ := Option.bind_eq_some_iff.mp found
  dsimp only at found
  split at found
  · have fixed : ∀ property ∈ Catalog.stageProperties, Text.OneRow property := by decide
    cases found
    exact oneRow_properties oneRow fixed fun _ stage => List.mem_of_find?_eq_some stage
  · have fixed : ∀ property ∈ Catalog.spriteProperties, Text.OneRow property := by decide
    cases found
    exact oneRow_properties oneRow fixed fun _ named => List.mem_of_find?_eq_some named

theorem oneRow_single {name : String} (named : Text.OneRow name) {options : List MenuOption}
    (labelled : ∀ option ∈ options, Text.OneRow option.label) : OneRow [(name, options)] := by
  intro group member
  rw [List.mem_singleton.mp member]
  exact ⟨named, labelled⟩

theorem oneRow_groups? {context : ChoiceContext} (oneRow : context.project.OneRow)
    {opcode field block : String} {groups : List Group}
    (found : context.groups? opcode field block = some groups) : OneRow groups := by
  unfold groups? at found
  obtain ⟨target, inRange, found⟩ := Option.bind_eq_some_iff.mp found
  have own := oneRow target (List.mem_of_getElem? inRange)
  have entities : ∀ pick : Target → List Entity, (∀ target, pick target ⊆ target.entities) →
      ∀ entity, (∃ target ∈ context.project.targets, entity ∈ pick target) →
        Text.OneRow entity.name := by
    rintro pick known entity ⟨owner, listed, inside⟩
    exact (oneRow owner listed).entities entity (known owner inside)
  split at found
  · rename_i options fixed
    cases found
    obtain ⟨menu, first, rfl⟩ := Option.map_eq_some_iff.mp fixed
    exact oneRow_single (by decide) (fixedMenus_oneRow menu (List.mem_of_find?_eq_some first))
  · split at found
    · rename_i special sprites
      cases found
      obtain ⟨menu, first, rfl⟩ := Option.map_eq_some_iff.mp sprites
      intro group member
      rcases List.mem_cons.mp member with rfl | later
      · exact ⟨(by decide : Text.OneRow "special"),
          spriteMenus_oneRow menu (List.mem_of_find?_eq_some first)⟩
      · refine oneRow_single (by decide) (oneRow_sameOptions ?_) group later
        intro name listed
        obtain ⟨sprite, inside, rfl⟩ := List.mem_map.mp listed
        exact (oneRow sprite (List.mem_filter.mp inside).1).name
    · split at found
      · cases found
        refine oneRow_single (by decide) (oneRow_entityOptions fun entity member => ?_)
        exact entities Target.vars (fun _ => by simp [Target.entities]) entity (mem_of_inScope member)
      · cases found
        refine oneRow_single (by decide) (oneRow_entityOptions fun entity member => ?_)
        exact entities Target.lists (fun _ => by simp [Target.entities]) entity
          (mem_of_inScope member)
      · cases found
        refine oneRow_single (by decide) (oneRow_entityOptions fun entity member => ?_)
        exact entities Target.broadcasts (fun _ => by simp [Target.entities]) entity
          (mem_of_stage member)
      · cases found
        exact oneRow_single (by decide) (oneRow_sameOptions own.costumes)
      · cases found
        refine oneRow_single (by decide) (oneRow_sameOptions fun costume member => ?_)
        obtain ⟨stage, listed, inside⟩ := mem_of_stage member
        exact (oneRow stage listed).costumes costume inside
      · cases found
        exact oneRow_single (by decide) (oneRow_sameOptions own.sounds)
      · split at found
        · obtain ⟨options, properties, found⟩ := Option.bind_eq_some_iff.mp found
          cases found
          exact oneRow_single (by decide) (oneRow_propertyOptions? oneRow properties)
        · cases found
          simp [OneRow]
      · cases found
        simp [OneRow]

theorem oneRow_resolve? {context : ChoiceContext} (oneRow : context.project.OneRow)
    (live : context.editor.OneRow) {opcode field current block : String} {choices : ChoiceSet}
    (found : context.resolve? opcode field current block = some choices) : choices.OneRow := by
  unfold resolve? at found
  split at found
  · rename_i options offered
    cases found
    refine oneRow_insert ?_ (by decide)
      (oneRow_labels (live block field current options offered))
    intro group labels found
    cases found
  · obtain ⟨groups, grouped, found⟩ := Option.bind_eq_some_iff.mp found
    dsimp only at found
    split at found
    · cases found
    · cases found
      exact oneRow_choicesOf (increasing_of_groups? grouped) (oneRow_groups? oneRow grouped)

end ChoiceContext

namespace Outline

variable {arena : Arena} {entry : Entry}

theorem oneRow_spaces (count : Nat) : Text.OneRow (spaces count) := by
  simp [Text.OneRow, spaces]

theorem oneRow_field {block : Block} (oneRow : block.OneRow) {name : String} {value : String}
    (found : (block.fields.get? name).map Field.value = some value) : Text.OneRow value := by
  obtain ⟨field, stored, rfl⟩ := Option.map_eq_some_iff.mp found
  exact (oneRow.fields (name, field) ((Dict.get?_eq_some_iff _ _ _).mp stored)).2

theorem oneRow_shadowValue? {shadow : Block} (oneRow : shadow.OneRow) {value : String}
    (found : shadowValue? shadow = some value) : Text.OneRow value := by
  unfold shadowValue? at found
  dsimp only at found
  split at found
  · obtain ⟨text, stored, rfl⟩ := Option.map_eq_some_iff.mp found
    exact oneRow_quote (oneRow_field oneRow stored)
  · exact oneRow_field oneRow found
  · obtain ⟨trimmed, -⟩ := Option.filter_eq_some_iff.mp found
    obtain ⟨text, stored, rfl⟩ := Option.map_eq_some_iff.mp trimmed
    exact oneRow_trim (oneRow_field oneRow stored)
  · obtain ⟨⟨name, field⟩, first, rfl⟩ := Option.map_eq_some_iff.mp found
    exact (oneRow.fields (name, field) (List.mem_of_mem_head? first)).2

theorem oneRow_shadowText {shadow : Block} (oneRow : shadow.OneRow)
    (typed : Text.OneRow shadow.opcode) : Text.OneRow (shadowText shadow) := by
  unfold shadowText
  split
  · rename_i value found
    have shown := oneRow_shadowValue? oneRow found
    simp only [oneRow_append]
    exact ⟨⟨⟨shown, by decide⟩, typed⟩, by decide⟩
  · exact typed

theorem oneRow_inputNames {block : Block} (oneRow : block.OneRow) {name : String}
    (member : name ∈ inputNames block) : Text.OneRow name := by
  rcases List.mem_append.mp member with stored | expected
  · obtain ⟨input, inside, rfl⟩ := List.mem_map.mp stored
    exact oneRow.inputs input inside
  · exact Catalog.oneRow_expectedInputs (List.mem_filter.mp expected).1

theorem oneRow_plainLine
    (oneRow : ∀ id block, arena.get? id = some block → Text.OneRow id ∧ block.OneRow)
    (stored : entry.Stored arena) : Text.OneRow (plainLine entry) := by
  cases entry with
  | separator => decide
  | header index id block depth top =>
    have known : Catalog.kind block.opcode ≠ .outOfScope := by
      rw [of_decide_eq_true stored.2]
      decide
    have marked : Text.OneRow (if top then " [top]" else "") := by
      cases top <;> decide
    simp only [plainLine, indent, oneRow_append]
    exact ⟨⟨⟨oneRow_spaces _, ⟨by decide, oneRow_repr index⟩, by decide⟩,
      Catalog.oneRow_opcode known⟩, marked⟩
  | field owner opcode name field depth =>
    obtain ⟨block, found, inside⟩ := stored
    have texts := (oneRow owner block found).2.fields (name, field)
      ((Dict.get?_eq_some_iff _ _ _).mp inside)
    simp only [plainLine, propertyIndent, oneRow_append]
    exact ⟨⟨oneRow_spaces _, ⟨by decide, texts.1⟩, by decide⟩, texts.2⟩
  | input name depth =>
    obtain ⟨id, block, found, named⟩ := stored
    simp only [plainLine, propertyIndent, oneRow_append]
    exact ⟨oneRow_spaces _, ⟨by decide, oneRow_inputNames (oneRow id block found).2 named⟩,
      by decide⟩
  | literal name id shadow depth =>
    obtain ⟨⟨owner, block, found, named⟩, plugged, kind⟩ := stored
    have known : Catalog.kind shadow.opcode ≠ .outOfScope := by
      rw [kind]
      decide
    simp only [plainLine, propertyIndent, oneRow_append]
    exact ⟨⟨oneRow_spaces _, ⟨by decide, oneRow_inputNames (oneRow owner block found).2 named⟩,
      by decide⟩, oneRow_shadowText (oneRow id shadow plugged).2 (Catalog.oneRow_opcode known)⟩
  | branch branch depth =>
    simp only [plainLine, propertyIndent, oneRow_append]
    refine ⟨⟨⟨oneRow_spaces _, by decide⟩, ?_⟩, by decide⟩
    cases branch <;> decide

theorem oneRow_idSuffix
    (oneRow : ∀ id block, arena.get? id = some block → Text.OneRow id ∧ block.OneRow)
    (stored : entry.Stored arena) (options : ListingOptions) :
    Text.OneRow (idSuffix options entry) := by
  cases entry with
  | header index id block depth top =>
    rw [idSuffix]
    split
    · simp only [oneRow_append]
      exact ⟨⟨by decide, (oneRow id block stored.1).1⟩, by decide⟩
    · decide
  | _ => exact (by decide : Text.OneRow "")

theorem oneRow_choiceSuffix {context : ChoiceContext} (oneRow : context.project.OneRow)
    (live : context.editor.OneRow) (options : ListingOptions) (entry : Entry) :
    Text.OneRow (choiceSuffix context options entry) := by
  unfold choiceSuffix
  split
  · split
    · decide
    · split
      · decide
      · rename_i choices found
        rw [oneRow_append]
        exact ⟨by decide, ChoiceSet.oneRow_display (ChoiceContext.oneRow_resolve? oneRow live found)⟩
  · decide

/-- A line has no newline unless a name or a value has one. -/
theorem oneRow_line {context : ChoiceContext} {target : Target}
    (inRange : context.project.targets[context.target]? = some target)
    (oneRow : context.project.OneRow) (live : context.editor.OneRow)
    (stored : entry.Stored target.blocks) (options : ListingOptions) :
    Text.OneRow (line context options entry) := by
  have own : ∀ id block, target.blocks.get? id = some block → Text.OneRow id ∧ block.OneRow := by
    intro id block found
    exact (oneRow target (List.mem_of_getElem? inRange)).blocks (id, block)
      ((Dict.get?_eq_some_iff _ _ _).mp found)
  rw [line, oneRow_append, oneRow_append]
  exact ⟨⟨oneRow_plainLine own stored, oneRow_idSuffix own stored options⟩,
    oneRow_choiceSuffix oneRow live options entry⟩

end Outline

end BlockGraph
