import BlockGraph.Proofs.Confinement
import BlockGraph.Proofs.Rollback

/-!
Field writes that succeed, on blocks whose links need not be in order. A name resolves to a field of
the block itself, to the field of the shadow that is plugged in, or to that of a shadow which is
plugged in for the write. The value becomes a text, an entity or a message, and one field of one block
takes it.
-/

set_option autoImplicit false

namespace BlockGraph

open Revision

namespace Input

/-- Inputs before and after a shadow is plugged into the one called `name`, which was missing or held
no block. -/
def Filled (name shadow : String) (before after : List Input) : Prop :=
  ∃ (left right : List Input) (old : Option Input),
    before = left ++ old.toList ++ right ∧
    after = left ++ ⟨name, some shadow, some shadow⟩ :: right ∧
    (∀ input ∈ left, input.name ≠ name) ∧ (∀ input ∈ old, input.name = name ∧ input.block = none) ∧
    (old = none → right = [])

variable {name shadow : String}

theorem filled_modifyFirst {inputs : List Input} {slot : Input}
    (found : inputs.find? (fun input => input.name = name) = some slot) (empty : slot.block = none) :
    Filled name shadow inputs (modifyFirst (fun input => input.name = name)
      ({ · with block := some shadow, shadow := some shadow }) inputs) := by
  obtain ⟨named, left, right, rfl, misses⟩ := List.find?_eq_some_iff_append.mp found
  refine ⟨left, right, some slot, by simp, ?_, ?_, ?_, by simp⟩
  · rw [modifyFirst_append named misses]
    simpa using named
  · intro input member
    simpa using misses input member
  · rintro _ ⟨⟩
    exact ⟨by simpa using named, empty⟩

end Input

namespace Block

variable {block : Block} {name shadow : String}

/-- The block with a shadow in one of its inputs. -/
def withShadow (block : Block) (name shadow : String) : Block :=
  block.withInput name ({ · with block := some shadow, shadow := some shadow })

/-- The block with another value in one of its fields. -/
def withField (block : Block) (name : String) (field : Field) : Block :=
  { block with fields := block.fields.insert name field }

@[simp]
theorem fields_withShadow (block : Block) (name shadow : String) :
    (block.withShadow name shadow).fields = block.fields :=
  fields_of_frame (block.frame_withInput name _)

@[simp]
theorem opcode_withShadow (block : Block) (name shadow : String) :
    (block.withShadow name shadow).opcode = block.opcode :=
  opcode_of_frame (block.frame_withInput name _)

/-- A shadow in an input changes the inputs and nothing else. -/
theorem withShadow_cases (empty : block.plugged? name = none) (shadow : String) :
    ∃ inputs, block.withShadow name shadow = { block with inputs := inputs } ∧
      Input.Filled name shadow block.inputs inputs := by
  rw [withShadow]
  rcases block.withInput_eq name ({ · with block := some shadow, shadow := some shadow }) with
    ⟨slot, found, same⟩ | ⟨missing, same⟩
  · refine ⟨_, same, Input.filled_modifyFirst found ?_⟩
    simpa [plugged?, found] using empty
  · refine ⟨_, same, block.inputs, [], none, by simp, rfl, ?_, by simp, fun _ => rfl⟩
    intro input member
    simpa using List.find?_eq_none.mp missing input member

/-- The shadow is what the input holds. -/
theorem plugged?_of_filled (block : Block) {before after : List Input}
    (filled : Input.Filled name shadow before after) :
    ({ block with inputs := after } : Block).plugged? name = some shadow := by
  obtain ⟨left, right, old, -, rfl, apart, -⟩ := filled
  have passed : left.find? (fun input => input.name = name) = none := by
    apply List.find?_eq_none.mpr
    intro input member
    simpa using apart input member
  simp [plugged?, input?, List.find?_append, passed]

theorem plugged?_withShadow (block : Block) (empty : block.plugged? name = none) (shadow : String) :
    (block.withShadow name shadow).plugged? name = some shadow := by
  obtain ⟨inputs, changed, filled⟩ := block.withShadow_cases empty shadow
  rw [changed]
  exact block.plugged?_of_filled filled

end Block

namespace FieldWrite

open Arena

variable {arena next : Arena} {id name shadow field : String} {block : Block} {slot : Slot}

/-- The field that holds the value of a shadow is one of its fields. -/
theorem contains_of_shadowField (chosen : shadowField name shadow block = .ok field) :
    Catalog.kind block.opcode = .shadow ∧ block.fields.contains field = true := by
  unfold shadowField at chosen
  split at chosen
  · cases chosen
  · rename_i isShadow
    refine ⟨not_not.mp isShadow, ?_⟩
    simp only at chosen
    split at chosen
    · rename_i found
      cases chosen
      rcases Option.or_eq_some_iff.mp found with primary | ⟨-, first⟩
      · exact (Option.filter_eq_some_iff.mp primary).2
      · obtain ⟨entry, head, rfl⟩ := Option.map_eq_some_iff.mp first
        rw [Dict.contains_iff_mem_keys]
        exact List.mem_map_of_mem (List.mem_of_mem_head? head)
    · cases chosen

/-- Which field holds the value of a shadow depends on its type and on the names of its fields. -/
theorem shadowField_congr {other : Block} (opcode : other.opcode = block.opcode)
    (keys : other.fields.keys = block.fields.keys) :
    shadowField name shadow other = shadowField name shadow block := by
  have contains : other.fields.contains = block.fields.contains := by
    funext key
    rw [Bool.eq_iff_iff, Dict.contains_iff_mem_keys, Dict.contains_iff_mem_keys, keys]
  have first : other.firstField?.map Prod.fst = block.firstField?.map Prod.fst := by
    have heads := congrArg List.head? keys
    rwa [Dict.keys, Dict.keys, List.head?_map, List.head?_map] at heads
  simp only [shadowField, opcode, contains, first]

/-- A new shadow has one field, which holds its value. -/
theorem shadowField_newShadow {opcode template : String} (kind : Catalog.kind opcode = .shadow) :
    shadowField name shadow (.newShadow id opcode field template) = .ok field := by
  have lone : (Block.newShadow id opcode field template).firstField? = some (field, .plain template) :=
    rfl
  have contains : ∀ key, (Block.newShadow id opcode field template).fields.contains key = true →
      key = field := by
    intro key known
    rw [Dict.contains_iff_mem_keys] at known
    exact List.mem_singleton.mp known
  have isShadow : Catalog.kind (Block.newShadow id opcode field template).opcode = .shadow := kind
  unfold shadowField
  simp only [isShadow, lone, ne_eq, not_true_eq_false, if_false]
  cases primary : (Catalog.primaryField? (Block.newShadow id opcode field template).opcode).filter
      (Block.newShadow id opcode field template).fields.contains with
  | none => rfl
  | some chosen =>
    have same := contains chosen (Option.filter_eq_some_iff.mp primary).2
    simp [same]

/-- What a name stands for, and the blocks when the slot is ready. A shadow that is plugged in for the
write is the one that the input owns, or a new one with the parent and the field it needs. -/
inductive Resolves (arena : Arena) (id name : String) : Slot → Arena → Prop
  | own {block : Block} (found : arena.get? id = some block)
      (isField : block.fields.contains name = true) : Resolves arena id name ⟨id, name, none⟩ arena
  | plugged {block held : Block} {child field : String} (found : arena.get? id = some block)
      (notField : block.fields.contains name = false) (plugged : block.plugged? name = some child)
      (stored : arena.get? child = some held) (chosen : shadowField name child held = .ok field) :
      Resolves arena id name ⟨child, field, none⟩ arena
  | filled {base : Arena} {block leaf : Block} {shadow field : String} {plug : Plug}
      (found : arena.get? id = some block) (notField : block.fields.contains name = false)
      (empty : block.plugged? name = none)
      (lookups : ∀ other, base.get? other = if other = shadow then some leaf else arena.get? other)
      (scripts : base.scripts = arena.scripts)
      (origin : arena.get? shadow = some leaf ∧ (block.input? name).bind Input.shadow = some shadow ∨
        arena.get? shadow = none ∧ ∃ opcode template, leaf = .newShadow id opcode field template ∧
          shadowTemplate block.opcode name = .ok (opcode, field, template))
      (chosen : shadowField name shadow leaf = .ok field) :
      Resolves arena id name ⟨shadow, field, some plug⟩
        (base.modifyBlock id (·.withShadow name shadow))

/-- A shadow that is stored or new takes the place of no other block. -/
theorem get?_base {base : Arena} {leaf : Block}
    (lookups : ∀ other, base.get? other = if other = shadow then some leaf else arena.get? other)
    (origin : arena.get? shadow = some leaf ∨ arena.get? shadow = none)
    (found : arena.get? id = some block) : base.get? id = some block := by
  rw [lookups]
  split
  · rename_i hit
    subst hit
    rcases origin with same | missing
    · rw [← found, same]
    · cases missing.symm.trans found
  · exact found

theorem resolves_replug (found : arena.get? id = some block)
    (notField : block.fields.contains name = false) {previous : Input}
    (was : block.input? name = some previous) (empty : previous.block = none)
    (owns : previous.shadow = some shadow) {held : Block} (stored : arena.get? shadow = some held) :
    After (replug id shadow held previous) arena (Resolves arena id name) fun _ _ => True := by
  have named : previous.name = name := by simpa using List.find?_some was
  subst named
  rw [replug, after_bind, after_check]
  refine ⟨fun field chosen => ?_, fun _ _ => trivial⟩
  have same : arena.modifyBlock id (·.withInput previous.name ({ · with block := some shadow })) =
      arena.modifyBlock id (·.withShadow previous.name shadow) := by
    apply modifyBlock_congr found
    apply Block.withInput_congr
    rw [was, Option.getD_some, ← owns]
  rw [after_bind, after_update_of_get? found, after_pure, same]
  refine .filled found notField (by simp [Block.plugged?, was, empty]) ?_ rfl
    (.inl ⟨stored, by simp [was, owns]⟩) chosen
  intro other
  split
  · rename_i hit
    rw [hit, stored]
  · rfl

theorem resolves_plugNew (found : arena.get? id = some block)
    (notField : block.fields.contains name = false) (empty : block.plugged? name = none)
    (isNew : Bool) {previous : Input} (named : previous.name = name) :
    After (plugNew id block.opcode isNew previous) arena (Resolves arena id name)
      fun _ _ => True := by
  subst named
  rw [plugNew, after_bind, after_check]
  refine ⟨?_, fun _ _ => trivial⟩
  rintro ⟨opcode, field, template⟩ made
  have fresh := arena.get?_freshId "shadow"
  rw [after_bind, after_newId, after_bind, after_modify]
  simp only
  split
  · trivial
  · rw [after_bind, after_update]
    refine ⟨fun _ => ?_, fun _ => trivial⟩
    refine .filled found notField empty ?_ (scripts_insert_below _ _ rfl)
      (.inr ⟨fresh, opcode, template, rfl, made⟩)
      (shadowField_newShadow (kind_shadowTemplate made))
    intro other
    rw [get?_insert]
    simp only [eq_comm]
    rfl

/-- A name that is resolved stands for one of three slots. -/
theorem resolves_of_resolve (arena : Arena) (id name : String) :
    After (resolve id name) arena (Resolves arena id name) fun _ _ => True := by
  apply after_resolve_of_leads
  intro revision leads
  cases leads with
  | missing => trivial
  | own found isField => exact .own found isField
  | plugged found notField plugged =>
    rw [after_bind, after_stored]
    refine ⟨fun held stored => ?_, fun _ => trivial⟩
    rw [after_bind, after_check]
    exact ⟨fun field chosen => .plugged found notField plugged stored chosen, fun _ _ => trivial⟩
  | owned found notField was empty own stored =>
    exact resolves_replug found notField was empty own stored
  | bare found notField was empty =>
    exact resolves_plugNew found notField (by simp [Block.plugged?, was, empty]) false rfl
  | expected found notField absent =>
    exact resolves_plugNew found notField (by simp [Block.plugged?, absent]) true rfl
  | unavailable => trivial

/-- What a content becomes: the field, the value that is reported, and the project that holds the
message it may need. -/
inductive Registers (project : Project) : Content → Field → String → Project → Prop
  | plain (text : String) : Registers project (.plain text) (.plain text) text project
  | reference (label id : String) :
      Registers project (.reference label id) (.reference label id) id project
  | known {name : String} {message : Entity}
      (known : project.broadcastByName? name = some message) :
      Registers project (.message name) (.reference name message.id) message.id project
  | created {name : String} {stage : Nat} (unknown : project.broadcastByName? name = none)
      (isFirst : project.stageIndex? = some stage) :
      Registers project (.message name)
        (.reference name (project.freshEntityId "broadcast").1)
        (project.freshEntityId "broadcast").1
        ((project.freshEntityId "broadcast").2.modifyTarget stage
          (·.withMessage ⟨(project.freshEntityId "broadcast").1, name, .text name⟩))

theorem registers_of_contentField (content : Content) (project : Project) :
    After (contentField content) project
      (fun bound next => Registers project content bound.1 bound.2 next) fun _ _ => True := by
  cases content with
  | plain text => exact .plain text
  | reference label id => exact .reference label id
  | message name =>
    rw [contentField, after_bind]
    refine (Project.announces_of_ensureBroadcast project name).mono ?_ fun _ _ _ => trivial
    intro _ _ announces
    cases announces with
    | known known => exact .known known
    | created unknown isFirst => exact .created unknown isFirst

theorem contentField_of_known {project : Project} {message : Entity}
    (known : project.broadcastByName? name = some message) :
    contentField (.message name) project =
      .ok (.reference name message.id, message.id) project := by
  have done : After (contentField (.message name)) project
      (fun bound next => bound = (.reference name message.id, message.id) ∧ next = project)
      fun _ _ => False := by
    rw [contentField, after_bind, Project.ensureBroadcast, after_bind, after_get]
    simp [known]
  obtain ⟨bound, next, ended, rfl, rfl⟩ := exists_ok_of_after done
  exact ended

/-- What is registered is a message at most, one that was missing. -/
theorem Registers.inside {start project next : Project} {content : Content} {field : Field}
    {reported : String} (registers : Registers project content field reported next)
    (inside : start.Inside project none) :
    ∃ added, start.Inside next added ∧ ∀ addition ∈ added, addition.IsMessage start ∧
      ∃ name, content = .message name ∧ project.broadcastByName? name = none ∧
        addition.entity = ⟨reported, name, .text name⟩ := by
  cases registers with
  | plain text => exact ⟨none, inside, by simp⟩
  | reference label id => exact ⟨none, inside, by simp⟩
  | known _ => exact ⟨none, inside, by simp⟩
  | @created name stage unknown isFirst =>
    have counted : start.Inside (project.freshEntityId "broadcast").2 none := inside.counted
    refine ⟨_, counted.add stage .messages _, fun addition member => ?_⟩
    cases member
    exact ⟨⟨rfl, inside.stage ▸ isFirst⟩, name, rfl, unknown, rfl⟩

/-- The value that is reported is the id of the entity in the field, or else its text. -/
theorem Registers.reported {project next : Project} {content : Content} {field : Field}
    {reported : String} (registers : Registers project content field reported next) :
    field.id.getD field.value = reported := by
  cases registers <;> rfl

/-- Only a message field takes a message, and the message has the name that is written. -/
theorem interpret_eq_message {context : ChoiceContext} {opcode current value name : String}
    (interpreted : interpret context opcode current slot value = .ok (.message name)) :
    Catalog.isMessageField opcode slot.field = true ∧ name = value := by
  unfold interpret at interpreted
  split at interpreted
  · rename_i isMessage
    split at interpreted
    · cases interpreted
    · cases interpreted
      exact ⟨isMessage, rfl⟩
  · simp only at interpreted
    split at interpreted
    · split at interpreted
      · cases interpreted
      · cases interpreted
    · cases interpreted

end FieldWrite

/-- Blocks before and after a write to what `name` stands for on a block. The block that is written to
is that block itself, or the one in the input called `name`; it may be new, and it may have been
plugged in for the write. -/
structure FieldWrite.Wrote (before after : Arena) (id name written key : String) (field : Field) :
    Prop where
  place : written = id ∨ ∃ block, after.get? id = some block ∧ block.plugged? name = some written
  holds : ∃ block, after.get? written = some block ∧ block.fields.get? key = some field
  scripts : after.scripts = before.scripts
  kept : ∀ other old, before.get? other = some old → ∃ inputs,
    after.get? other = some { old with
      inputs := inputs
      fields := if other = written then old.fields.insert key field else old.fields } ∧
    (inputs = old.inputs ∨ other = id ∧ Input.Filled name written old.inputs inputs)
  new : ∀ other block, before.get? other = none → after.get? other = some block →
    other = written ∧ block = {
      opcode := block.opcode
      parent := some id
      fields := (∅ : Dict Field).insert key field }

namespace FieldWrite.Wrote

variable {before base after : Arena} {id name written key : String} {field : Field} {block held : Block}

/-- A write to a block that needs no shadow plugged in. -/
theorem of_stored (stored : before.get? written = some held)
    (place : written = id ∨
      ∃ block, before.get? id = some block ∧ block.plugged? name = some written) :
    Wrote before (before.modifyBlock written (·.withField key field)) id name written key field where
  place := by
    refine place.imp_right ?_
    rintro ⟨block, found, plugged⟩
    rw [Arena.get?_modifyBlock, found]
    split
    · exact ⟨_, rfl, plugged⟩
    · exact ⟨_, rfl, plugged⟩
  holds := by
    rw [Arena.get?_modifyBlock, if_pos rfl, stored]
    exact ⟨_, rfl, by simp [Block.withField]⟩
  scripts := rfl
  kept other old found := by
    refine ⟨old.inputs, ?_, .inl rfl⟩
    rw [Arena.get?_modifyBlock, found]
    split
    · rfl
    · rfl
  new other block missing found := by
    rw [Arena.get?_modifyBlock, missing] at found
    split at found
    · cases found
    · cases found

/-- A write to a shadow that is plugged in for it. -/
theorem of_filled (found : before.get? id = some block) (empty : block.plugged? name = none)
    (lookups : ∀ other, base.get? other = if other = written then some held else before.get? other)
    (scripts : base.scripts = before.scripts)
    (origin : before.get? written = some held ∨ before.get? written = none ∧
      ∃ opcode template, held = .newShadow id opcode key template) :
    Wrote before ((base.modifyBlock id (·.withShadow name written)).modifyBlock written
      (·.withField key field)) id name written key field := by
  obtain ⟨inputs, changed, filled⟩ := block.withShadow_cases empty written
  have kept : ∀ other old, before.get? other = some old → base.get? other = some old :=
    fun _ _ => get?_base lookups (origin.imp_right And.left)
  constructor
  · right
    rw [Arena.get?_modifyBlock, Arena.get?_modifyBlock, if_pos rfl, kept id block found,
      Option.map_some, changed]
    have plugged := block.plugged?_of_filled filled
    split
    · exact ⟨_, rfl, plugged⟩
    · exact ⟨_, rfl, plugged⟩
  · rw [Arena.get?_modifyBlock, Arena.get?_modifyBlock, if_pos rfl, lookups, if_pos rfl]
    split
    · exact ⟨_, rfl, by simp [Block.withField]⟩
    · exact ⟨_, rfl, by simp [Block.withField]⟩
  · exact scripts
  · intro other old stored
    rw [Arena.get?_modifyBlock, Arena.get?_modifyBlock, kept other old stored]
    by_cases isOwner : other = id
    · subst isOwner
      obtain rfl := Option.some.inj (found.symm.trans stored)
      refine ⟨inputs, ?_, .inr ⟨rfl, filled⟩⟩
      rw [if_pos rfl, Option.map_some, changed]
      split
      · rfl
      · rfl
    · refine ⟨old.inputs, ?_, .inl rfl⟩
      rw [if_neg isOwner]
      split
      · rfl
      · rfl
  · intro other new missing stored
    have apart : other ≠ id := by
      rintro rfl
      cases missing.symm.trans found
    rw [Arena.get?_modifyBlock, Arena.get?_modifyBlock, if_neg apart, lookups] at stored
    split at stored
    · rename_i hit
      subst hit
      rcases origin with same | ⟨-, opcode, template, rfl⟩
      · cases missing.symm.trans same
      · cases stored
        refine ⟨rfl, ?_⟩
        simp [Block.withField, Block.newShadow, Dict.insert_insert]
    · cases missing.symm.trans stored

end FieldWrite.Wrote

theorem FieldWrite.Resolves.wrote {before blocks : Arena} {id name : String} {slot : Slot}
    (resolves : Resolves before id name slot blocks) (field : Field) :
    Wrote before (blocks.modifyBlock slot.block (·.withField slot.field field)) id name slot.block
      slot.field field := by
  cases resolves with
  | own found isField => exact .of_stored found (.inl rfl)
  | plugged found notField plugged stored chosen => exact .of_stored stored (.inr ⟨_, found, plugged⟩)
  | filled found notField empty lookups scripts origin chosen =>
    refine .of_filled found empty lookups scripts ?_
    rcases origin with ⟨stored, -⟩ | ⟨missing, opcode, template, isNew, -⟩
    · exact .inl stored
    · exact .inr ⟨missing, opcode, template, isNew⟩

open FieldWrite

/-- The stages of a write that succeeds: the slot that the name stands for, what the value means there,
and the field that holds it. -/
structure FieldWrite.Writing (editor : Editor) (before : Project) (id name value : String)
    (update : FieldUpdate) (after : Project) where
  index : Nat
  target : Target
  required : before.requireEditing = .ok (index, target)
  slot : Slot
  blocks : Arena
  resolves : Resolves target.blocks id name slot blocks
  owner : Block
  stored : blocks.get? slot.block = some owner
  content : Content
  interpreted : interpret ⟨before.putBlocks index blocks, index, editor⟩ owner.opcode
    (((owner.fields.get? slot.field).map Field.value).getD "") slot value = .ok content
  valid : validate owner.opcode slot content = .ok ()
  field : Field
  middle : Project
  registers : Registers (before.putBlocks index blocks) content field update.value middle
  found : ∃ kept, middle.targets[index]? = some kept
  slotField : update.field = slot.field
  result : after = middle.putBlocks index
    (blocks.modifyBlock slot.block (·.withField slot.field field))

namespace FieldWrite.Writing

variable {editor : Editor} {before after : Project} {id name value : String} {update : FieldUpdate}

/-- The blocks with the field written. -/
def final (writing : Writing editor before id name value update after) : Arena :=
  writing.blocks.modifyBlock writing.slot.block (·.withField writing.slot.field writing.field)

theorem get?_final (writing : Writing editor before id name value update after) :
    writing.final.get? writing.slot.block =
      some (writing.owner.withField writing.slot.field writing.field) := by
  rw [final, Arena.get?_modifyBlock, if_pos rfl, writing.stored, Option.map_some]

/-- Apart from the blocks of the editing target there is a new message at most. -/
theorem inside (writing : Writing editor before id name value update after) :
    ∃ added, before.Inside after added ∧ ∀ addition ∈ added, addition.IsMessage before ∧
      ∃ name, writing.content = .message name ∧ before.broadcastByName? name = none ∧
        addition.entity = ⟨update.value, name, .text name⟩ := by
  have edited := (Project.requireEditing_eq_ok writing.required).1
  have resolved := (Project.Inside.refl before).putBlocks edited writing.blocks
  obtain ⟨added, grown, messages⟩ := writing.registers.inside resolved
  have last := grown.putBlocks edited writing.final
  rw [final, ← writing.result] at last
  refine ⟨added, last, fun addition member => ?_⟩
  obtain ⟨isMessage, name, isContent, unknown, entity⟩ := messages addition member
  rw [Project.broadcastByName?, Project.messages_putBlocks] at unknown
  exact ⟨isMessage, name, isContent, unknown, entity⟩

/-- The editing target has the written blocks. -/
theorem required_after (writing : Writing editor before id name value update after) :
    ∃ changed, after.requireEditing = .ok (writing.index, changed) ∧
      changed.blocks = writing.final := by
  obtain ⟨kept, found⟩ := writing.found
  obtain ⟨_, inside, -⟩ := writing.inside
  have chosen := inside.editing.trans (Project.requireEditing_eq_ok writing.required).1
  have lookup := congrArg (fun project => project.targets[writing.index]?) writing.result
  exact ⟨_, Project.requireEditing_of_get? chosen
    (lookup.trans (Project.get_putBlocks found writing.final)), rfl⟩

end FieldWrite.Writing

namespace Project

variable {editor : Editor} {before after : Project} {id name value : String} {update : FieldUpdate}

theorem writing_of_write {index : Nat} {target : Target}
    (required : before.requireEditing = .ok (index, target)) {slot : Slot} {blocks : Arena}
    (resolves : Resolves target.blocks id name slot blocks) :
    After (write editor index slot value) (before.putBlocks index blocks)
      (fun update after => Nonempty (Writing editor before id name value update after))
      fun _ _ => True := by
  have found := get_putBlocks (requireEditing_eq_ok required).2 blocks
  rw [write, after_bind, after_onBlocks_of_get? found, Arena.after_stored, putBlocks_same found]
  refine ⟨fun owner stored => ?_, fun _ => trivial⟩
  simp only [after_bind, after_get, after_check]
  refine ⟨fun content interpreted => ⟨fun _ valid => ?_, fun _ _ => trivial⟩, fun _ _ => trivial⟩
  refine ((targets_contentField content found).and (registers_of_contentField content _)).mono ?_
    fun _ _ _ => trivial
  rintro ⟨field, reported⟩ middle ⟨⟨kept, keptFound, same⟩, registers⟩
  rw [after_onBlocks_of_get? keptFound, same, Arena.after_update_of_get? stored, after_pure]
  exact ⟨⟨index, target, required, slot, blocks, resolves, owner, stored, content, interpreted, valid,
    field, middle, registers, ⟨kept, keptFound⟩, rfl, rfl⟩⟩

/-- A write that succeeds has gone through all stages. -/
theorem writing_of_setField (wrote : setField editor id name value before = .ok update after) :
    Nonempty (Writing editor before id name value update after) := by
  have steps : After (setField editor id name value) before
      (fun update after => Nonempty (Writing editor before id name value update after))
      fun _ _ => True := by
    rw [setField, after_bind, after_editingIndex]
    refine ⟨fun index target required => ?_, fun _ _ => trivial⟩
    rw [after_bind, after_onBlocks_of_get? (requireEditing_eq_ok required).2]
    refine (resolves_of_resolve target.blocks id name).mono ?_ fun _ _ _ => trivial
    intro slot blocks resolves
    rw [after_tryCatch]
    refine (writing_of_write required resolves).mono (fun _ _ writing => writing) ?_
    intro fault next _
    cases slot.plug with
    | none => trivial
    | some plug =>
      rw [after_bind, after_onBlocks]
      exact ⟨fun _ _ => trivial, fun _ => trivial⟩
  exact (after_of_ok wrote).mp steps

/-- Frame of a write that succeeds, whatever the links of the blocks are like. In the editing target one
field of one block is written, that of the block itself or of the block in the input called `name`. At
most one block is new, a shadow of the block, and at most one input is another one, that called `name`,
which was missing or held no block. All else stays, except that a message may be appended to the first
stage, when a message field is written and there was no message of that name. -/
theorem frame_setField (wrote : setField editor id name value before = .ok update after) :
    ∃ index target changed written field added,
      before.requireEditing = .ok (index, target) ∧ after.requireEditing = .ok (index, changed) ∧
      Wrote target.blocks changed.blocks id name written update.field field ∧
      field.id.getD field.value = update.value ∧ before.Extends after added ∧
      ∀ addition ∈ added, addition.IsMessage before ∧
        addition.entity = ⟨update.value, value, .text value⟩ ∧
        before.broadcastByName? value = none ∧
        ∃ block, changed.blocks.get? written = some block ∧
          Catalog.isMessageField block.opcode update.field = true := by
  obtain ⟨writing⟩ := writing_of_setField wrote
  obtain ⟨added, inside, messages⟩ := writing.inside
  obtain ⟨changed, required, blocks⟩ := writing.required_after
  refine ⟨writing.index, writing.target, changed, writing.slot.block, writing.field, added,
    writing.required, required, ?_, writing.registers.reported, inside.grown, ?_⟩
  · rw [blocks, writing.slotField]
    exact writing.resolves.wrote writing.field
  · intro addition member
    obtain ⟨isMessage, asked, isContent, unknown, entity⟩ := messages addition member
    have interpreted := writing.interpreted
    rw [isContent] at interpreted
    obtain ⟨isMessageField, rfl⟩ := interpret_eq_message interpreted
    rw [blocks, writing.slotField]
    exact ⟨isMessage, entity, unknown, _, writing.get?_final, isMessageField⟩

/-- A stage, and a sprite with one block. -/
def oneBlockProject (opcode : String) (inputs : List Input) : Project :=
  .ofTargets [
    { name := "Stage", isStage := true },
    { name := "Cat"
      isStage := false
      blocks :=
        { blocks := .ofList [("a", { opcode := opcode, topLevel := true, inputs := inputs })]
          scripts := ["a"] } }] ∅

/-- A new message in a new shadow, for an input that names a missing one. -/
theorem frame_setField_message :
    ∃ after, setField .headless "a" "BROADCAST_INPUT" "go"
        (oneBlockProject "event_broadcast" [⟨"BROADCAST_INPUT", none, some "lost"⟩]) =
        .ok ⟨"BROADCAST_OPTION", "broadcast_1"⟩ after ∧
      ∃ (target changed : Target) (written : String) (field : Field),
        Wrote target.blocks changed.blocks "a" "BROADCAST_INPUT" written "BROADCAST_OPTION" field ∧
        after.requireEditing = .ok (1, changed) := by
  have wrote : setField .headless "a" "BROADCAST_INPUT" "go"
      (oneBlockProject "event_broadcast" [⟨"BROADCAST_INPUT", none, some "lost"⟩]) =
      .ok ⟨"BROADCAST_OPTION", "broadcast_1"⟩
        ((setField .headless "a" "BROADCAST_INPUT" "go").final
          (oneBlockProject "event_broadcast" [⟨"BROADCAST_INPUT", none, some "lost"⟩])) := by
    decide +kernel
  obtain ⟨index, target, changed, written, field, added, required, again, framed, -⟩ :=
    frame_setField wrote
  cases required
  exact ⟨_, wrote, _, changed, written, field, framed, again⟩

end Project

end BlockGraph
