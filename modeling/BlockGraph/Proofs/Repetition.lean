import BlockGraph.Proofs.Writes

/-!
Writing the same value again. The first write leaves a slot behind in which the name resolves without
any change, and the value means there what it meant before, since what a menu offers does not depend
on the field that has been written. So the second write finds all as it would leave it. Only a color
picker that was plugged in for the first write is checked by the second one alone.
-/

set_option autoImplicit false

namespace BlockGraph

open Revision FieldWrite

/-- All of a target but its blocks. -/
def Target.bare (target : Target) : Target :=
  { target with blocks := {} }

namespace Project

variable {first second : Project}

theorem bare_putBlocks (project : Project) (index : Nat) (blocks : Arena) :
    (project.putBlocks index blocks).targets.map Target.bare = project.targets.map Target.bare :=
  map_modifyTarget fun _ => rfl

section

variable (same : first.targets.map Target.bare = second.targets.map Target.bare)

include same

/-- What is seen of a target that is found without regard to blocks. -/
theorem map_find?_congr {β : Type} {test : Target → Bool} {view : Target → β}
    (testBare : ∀ target, test target.bare = test target)
    (viewBare : ∀ target, view target.bare = view target) :
    (first.targets.find? test).map view = (second.targets.find? test).map view := by
  have tested : test ∘ Target.bare = test := funext testBare
  have viewed : view ∘ Target.bare = view := funext viewBare
  have seen : ∀ targets : List Target,
      ((targets.map Target.bare).find? test).map view = (targets.find? test).map view := by
    intro targets
    rw [List.find?_map, tested, Option.map_map, viewed]
  rw [← seen, same, seen]

theorem map_filter_congr {β : Type} {test : Target → Bool} {view : Target → β}
    (testBare : ∀ target, test target.bare = test target)
    (viewBare : ∀ target, view target.bare = view target) :
    (first.targets.filter test).map view = (second.targets.filter test).map view := by
  have tested : test ∘ Target.bare = test := funext testBare
  have viewed : view ∘ Target.bare = view := funext viewBare
  have seen : ∀ targets : List Target,
      ((targets.map Target.bare).filter test).map view = (targets.filter test).map view := by
    intro targets
    rw [List.filter_map, tested, List.map_map, viewed]
  rw [← seen, same, seen]

theorem get_congr (index : Nat) :
    first.targets[index]? = none ∧ second.targets[index]? = none ∨
      ∃ target other, first.targets[index]? = some target ∧ second.targets[index]? = some other ∧
        target.bare = other.bare := by
  have own : first.targets[index]?.map Target.bare = second.targets[index]?.map Target.bare := by
    rw [← List.getElem?_map, same, List.getElem?_map]
  cases found : first.targets[index]? with
  | none =>
    rw [found, Option.map_none] at own
    exact .inl ⟨rfl, Option.map_eq_none_iff.mp own.symm⟩
  | some target =>
    rw [found, Option.map_some] at own
    obtain ⟨other, lookup, equal⟩ := Option.map_eq_some_iff.mp own.symm
    exact .inr ⟨target, other, rfl, lookup, equal.symm⟩

theorem inScope_congr {pick : Target → List Entity}
    (pickBare : ∀ target, pick target.bare = pick target) (index : Nat) : first.inScope index pick = second.inScope index pick := by
  have global : (first.stage?.map pick).getD [] = (second.stage?.map pick).getD [] := by
    rw [stage?, stage?, map_find?_congr same (fun _ => rfl) pickBare]
  unfold inScope
  rw [global]
  rcases get_congr same index with ⟨none, none'⟩ | ⟨target, other, found, found', equal⟩
  · rw [none, none']
  · have picked : pick target = pick other := by rw [← pickBare target, equal, pickBare]
    have flags : target.bare.isStage = other.bare.isStage := by rw [equal]
    simp only [Target.bare] at flags
    simp only [found, found', picked, Target.scope, flags]

/-- What a menu offers depends on the blocks only for the properties of an object. -/
theorem groups?_congr {index : Nat} {editor : Editor} {opcode field block : String}
    (properties : field = "PROPERTY" → ∀ target other, first.targets[index]? = some target →
      second.targets[index]? = some other →
      (⟨first, index, editor⟩ : ChoiceContext).propertyOptions? target.blocks block =
        (⟨second, index, editor⟩ : ChoiceContext).propertyOptions? other.blocks block) :
    (⟨first, index, editor⟩ : ChoiceContext).groups? opcode field block =
      (⟨second, index, editor⟩ : ChoiceContext).groups? opcode field block := by
  have backdrops : first.stage?.map Target.costumes = second.stage?.map Target.costumes :=
    map_find?_congr same (fun _ => rfl) fun _ => rfl
  have messages : first.messages = second.messages := by
    rw [Project.messages, Project.messages, stage?, stage?,
      map_find?_congr same (fun _ => rfl) fun _ => rfl]
  have vars : first.variablesInScope index = second.variablesInScope index :=
    inScope_congr same (fun _ => rfl) index
  have lists : first.listsInScope index = second.listsInScope index :=
    inScope_congr same (fun _ => rfl) index
  unfold ChoiceContext.groups?
  rcases get_congr same index with ⟨none, none'⟩ | ⟨target, other, found, found', equal⟩
  · simp only [none, none', Option.bind_eq_bind, Option.bind_none]
  · have costumes : target.bare.costumes = other.bare.costumes := by rw [equal]
    have sounds : target.bare.sounds = other.bare.sounds := by rw [equal]
    have names : target.bare.name = other.bare.name := by rw [equal]
    simp only [Target.bare] at costumes sounds names
    have sprites : (⟨first, index, editor⟩ : ChoiceContext).spriteOptions target field =
        (⟨second, index, editor⟩ : ChoiceContext).spriteOptions other field := by
      simp only [ChoiceContext.spriteOptions, names]
      rw [map_filter_congr same (fun _ => rfl) fun _ => rfl]
    simp only [found, found', Option.bind_eq_bind, Option.bind_some, sprites, vars, lists, messages,
      costumes, backdrops, sounds]
    split
    · rfl
    · split
      · rfl
      · split
        · rfl
        · rfl
        · rfl
        · rfl
        · rfl
        · rfl
        · rw [properties rfl target other found found']
        · rfl

/-- The properties that are offered depend on the object that is chosen beside them. -/
theorem propertyOptions?_congr {index : Nat} {editor : Editor} {blocks after : Arena} {block : String}
    (owners : (after.get? block).map (·.plugged? "OBJECT") =
      (blocks.get? block).map (·.plugged? "OBJECT"))
    (objects : ∀ id, ((after.get? id).bind fun menu => menu.fields.get? "OBJECT") =
      (blocks.get? id).bind fun menu => menu.fields.get? "OBJECT") :
    (⟨first, index, editor⟩ : ChoiceContext).propertyOptions? blocks block =
      (⟨second, index, editor⟩ : ChoiceContext).propertyOptions? after block := by
  have stages : first.stage?.map Target.vars = second.stage?.map Target.vars :=
    map_find?_congr same (fun _ => rfl) fun _ => rfl
  have named : ∀ name, (first.targets.find? fun target => target.name = name).map Target.vars =
      (second.targets.find? fun target => target.name = name).map Target.vars :=
    fun name => map_find?_congr same (fun _ => rfl) fun _ => rfl
  cases found : blocks.get? block with
  | none =>
    rw [found, Option.map_none, Option.map_eq_none_iff] at owners
    simp only [ChoiceContext.propertyOptions?, found, owners, Option.bind_eq_bind, Option.bind_none]
  | some owner =>
    rw [found, Option.map_some] at owners
    obtain ⟨changed, lookup, plugged⟩ := Option.map_eq_some_iff.mp owners
    simp only [ChoiceContext.propertyOptions?, found, lookup, Option.bind_eq_bind, Option.bind_some,
      Option.bind_assoc, plugged, objects]
    split
    · rw [stages]
    · rw [named]

end

/-- The object whose properties are offered is chosen in another field. -/
theorem options?_withField (project : Project) {index : Nat} {target : Target}
    (found : project.targets[index]? = some target) (opcode current later written key : String)
    (field : Field) (block : String) :
    (⟨project, index, .headless⟩ : ChoiceContext).options? opcode key current block =
      (⟨project.putBlocks index (target.blocks.modifyBlock written (·.withField key field)), index,
        .headless⟩ : ChoiceContext).options? opcode key later block := by
  have same := (project.bare_putBlocks index
    (target.blocks.modifyBlock written (·.withField key field))).symm
  simp only [ChoiceContext.options?, Editor.liveOptions?, Editor.headless]
  rw [groups?_congr same]
  rintro rfl old new oldFound newFound
  obtain rfl := Option.some.inj (found.symm.trans oldFound)
  rw [get_putBlocks found] at newFound
  cases newFound
  have kept : ∀ id, (target.blocks.modifyBlock written (·.withField "PROPERTY" field)).get? id =
      target.blocks.get? id ∨ ∃ block, target.blocks.get? id = some block ∧
        (target.blocks.modifyBlock written (·.withField "PROPERTY" field)).get? id =
          some (block.withField "PROPERTY" field) := by
    intro id
    rw [Arena.get?_modifyBlock]
    split
    · cases found : target.blocks.get? id with
      | none => exact .inl rfl
      | some block => exact .inr ⟨block, rfl, rfl⟩
    · exact .inl rfl
  apply propertyOptions?_congr same
  · rcases kept block with same | ⟨old, found, changed⟩
    · rw [same]
    · rw [found, changed]
      rfl
  · intro id
    rcases kept id with same | ⟨old, found, changed⟩
    · rw [same]
    · rw [found, changed, Option.bind_some, Option.bind_some, Block.withField, Dict.get?_insert,
        if_neg (by decide)]

end Project

namespace FieldWrite

variable {arena blocks : Arena} {id name : String} {slot : Slot}

/-- The field that a write goes to is there when the slot is ready. -/
theorem Resolves.stored (resolves : Resolves arena id name slot blocks) :
    ∃ owner, blocks.get? slot.block = some owner ∧ owner.fields.contains slot.field = true := by
  cases resolves with
  | own found isField => exact ⟨_, found, isField⟩
  | plugged _ _ _ stored chosen => exact ⟨_, stored, (contains_of_shadowField chosen).2⟩
  | filled _ _ empty lookups _ _ chosen =>
    have known := (contains_of_shadowField chosen).2
    rw [Arena.get?_modifyBlock, lookups, if_pos rfl]
    split
    · exact ⟨_, rfl, by simpa using known⟩
    · exact ⟨_, rfl, known⟩

/-- Where a slot is ready, the name stands for it without any change. -/
theorem Resolves.settled (resolves : Resolves arena id name slot blocks) :
    Resolves blocks id name { slot with plug := none } blocks := by
  cases resolves with
  | own found isField => exact .own found isField
  | plugged found notField plugged stored chosen => exact .plugged found notField plugged stored chosen
  | @filled base block leaf shadow field plug found notField empty lookups scripts origin chosen =>
    have kept := get?_base lookups (origin.imp And.left And.left) found
    have holds := block.plugged?_withShadow empty shadow
    have owner : (base.modifyBlock id (·.withShadow name shadow)).get? id =
        some (block.withShadow name shadow) := by
      rw [Arena.get?_modifyBlock, if_pos rfl, kept, Option.map_some]
    have plain : (block.withShadow name shadow).fields.contains name = false := by
      rw [Block.fields_withShadow, notField]
    by_cases isOwner : shadow = id
    · subst isOwner
      rw [lookups, if_pos rfl] at kept
      cases kept
      refine .plugged owner plain holds owner ?_
      rw [shadowField_congr (block.opcode_withShadow name shadow) (by rw [block.fields_withShadow]),
        chosen]
    · refine .plugged owner plain holds ?_ chosen
      rw [Arena.get?_modifyBlock, if_neg isOwner, lookups, if_pos rfl]

/-- A write to a field that is there changes no other slot and no name of a field. -/
theorem get?_withField {owner : Block} (stored : arena.get? slot.block = some owner)
    (known : owner.fields.contains slot.field = true) (field : Field) {other : String} {block : Block}
    (found : arena.get? other = some block) :
    ∃ changed, (arena.modifyBlock slot.block (·.withField slot.field field)).get? other = some changed ∧
      changed.opcode = block.opcode ∧ changed.inputs = block.inputs ∧
      changed.fields.keys = block.fields.keys := by
  rw [Arena.get?_modifyBlock]
  split
  · rename_i hit
    subst hit
    obtain rfl := Option.some.inj (stored.symm.trans found)
    rw [found]
    exact ⟨_, rfl, rfl, rfl, Dict.keys_insert known field⟩
  · exact ⟨block, found, rfl, rfl, rfl⟩

/-- A write leaves the name standing for the field that was written. -/
theorem Resolves.withField (resolves : Resolves arena id name slot arena) (bare : slot.plug = none)
    (field : Field) :
    Resolves (arena.modifyBlock slot.block (·.withField slot.field field)) id name slot
      (arena.modifyBlock slot.block (·.withField slot.field field)) := by
  obtain ⟨owner, ownerStored, known⟩ := resolves.stored
  have contains {changed block : Block} (keys : changed.fields.keys = block.fields.keys)
      (key : String) : changed.fields.contains key = block.fields.contains key := by
    rw [Bool.eq_iff_iff, Dict.contains_iff_mem_keys, Dict.contains_iff_mem_keys, keys]
  cases resolves with
  | own found isField =>
    obtain ⟨changed, lookup, -, -, keys⟩ := get?_withField ownerStored known field found
    exact .own lookup ((contains keys name).trans isField)
  | plugged found notField plugged stored chosen =>
    obtain ⟨changed, lookup, -, inputs, keys⟩ := get?_withField ownerStored known field found
    obtain ⟨held, heldLookup, opcode, -, heldKeys⟩ := get?_withField ownerStored known field stored
    refine .plugged lookup ((contains keys name).trans notField) ?_ heldLookup
      ((shadowField_congr opcode heldKeys).trans chosen)
    rw [Block.plugged?, Block.input?, inputs]
    exact plugged
  | filled => cases bare

theorem resolve_of_resolves (resolves : Resolves arena id name slot blocks)
    (bare : slot.plug = none) : resolve id name arena = .ok slot arena := by
  have done : After (resolve id name) arena (fun result next => result = slot ∧ next = arena)
      fun _ _ => False := by
    rw [resolve, after_bind, after_get]
    cases resolves with
    | own found isField =>
      simp [found, isField]
    | plugged found notField plugged stored chosen =>
      simp only [found, notField, plugged, Bool.false_eq_true, if_false]
      rw [after_bind, Arena.after_stored_of_get? stored, after_bind, after_check]
      simp [chosen]
    | filled => cases bare
  obtain ⟨result, next, resolved, rfl, rfl⟩ := exists_ok_of_after done
  exact resolved

/-- A shadow that has been plugged in for a write is what the input holds afterwards. -/
theorem Resolves.plugged_in (resolves : Resolves arena id name slot blocks) (plugs : slot.plug ≠ none)
    (field : Field) :
    ∃ block changed, arena.get? id = some block ∧ block.plugged? name = none ∧
      (blocks.modifyBlock slot.block (·.withField slot.field field)).get? id = some changed ∧
      changed.plugged? name = some slot.block := by
  obtain ⟨owner, stored, known⟩ := resolves.stored
  cases resolves with
  | own => exact absurd rfl plugs
  | plugged => exact absurd rfl plugs
  | @filled base block leaf shadow key plug found notField empty lookups scripts origin chosen =>
    have kept := get?_base lookups (origin.imp And.left And.left) found
    have filled : (base.modifyBlock id (·.withShadow name shadow)).get? id =
        some (block.withShadow name shadow) := by
      rw [Arena.get?_modifyBlock, if_pos rfl, kept, Option.map_some]
    obtain ⟨changed, lookup, -, inputs, -⟩ := get?_withField stored known field filled
    refine ⟨block, changed, found, empty, lookup, ?_⟩
    rw [Block.plugged?, Block.input?, inputs]
    exact block.plugged?_withShadow empty shadow

/-- An input that was empty before a write and is not any more holds the shadow that was plugged in. -/
theorem Resolves.plugs_of_held (resolves : Resolves arena id name slot blocks) {field : Field}
    {block changed : Block} {child : String} (found : arena.get? id = some block)
    (empty : block.plugged? name = none)
    (lookup : (blocks.modifyBlock slot.block (·.withField slot.field field)).get? id = some changed)
    (holds : changed.plugged? name = some child) : slot.plug ≠ none ∧ child = slot.block := by
  by_cases bare : slot.plug = none
  · exfalso
    cases resolves with
    | own stored isField =>
      rw [Arena.get?_modifyBlock, if_pos rfl, found] at lookup
      cases lookup
      cases empty.symm.trans holds
    | plugged stored notField plugged =>
      obtain rfl := Option.some.inj (found.symm.trans stored)
      cases empty.symm.trans plugged
    | filled => cases bare
  · obtain ⟨_, other, -, -, same, plugged⟩ := resolves.plugged_in bare field
    obtain rfl := Option.some.inj (lookup.symm.trans same)
    exact ⟨bare, Option.some.inj (holds.symm.trans plugged)⟩

/-- What a content has become is found again, a new message among the known ones. -/
theorem Registers.again {project middle : Project} {content : Content} {field : Field}
    {reported : String} (registers : Registers project content field reported middle) (index : Nat)
    (blocks : Arena) :
    contentField content (middle.putBlocks index blocks) =
      .ok (field, reported) (middle.putBlocks index blocks) := by
  cases registers with
  | plain text => rfl
  | reference label id => rfl
  | @known name message isKnown =>
    apply contentField_of_known
    rw [Project.broadcastByName?, Project.messages_putBlocks]
    exact isKnown
  | @created name stage unknown isFirst =>
    let message : Entity := ⟨(project.freshEntityId "broadcast").1, name, .text name⟩
    have counted : (project.freshEntityId "broadcast").2.stageIndex? = some stage := isFirst
    have missing : (project.freshEntityId "broadcast").2.messages.find?
      (fun message => message.name = name) = none := unknown
    have found : (((project.freshEntityId "broadcast").2.modifyTarget stage
        (·.withMessage message)).putBlocks index blocks).broadcastByName? name = some message := by
      rw [Project.broadcastByName?, Project.messages_putBlocks, Project.messages_withMessage counted,
        List.find?_append]
      simp [missing, message]
    exact contentField_of_known found

/-- A text becomes a field without an entity, and nothing else does. -/
theorem Registers.plain_iff {project middle : Project} {content : Content} {field : Field}
    {reported : String} (registers : Registers project content field reported middle) (text : String) :
    field = .plain text ↔ content = .plain text := by
  cases registers <;> simp [Field.plain, Field.reference]

theorem interpret_message {context : ChoiceContext} {opcode current value : String} {content : Content}
    (isMessage : Catalog.isMessageField opcode slot.field = true)
    (interpreted : interpret context opcode current slot value = .ok content) :
    content = .message value := by
  simp only [interpret, isMessage, if_true] at interpreted
  split at interpreted
  · cases interpreted
  · exact (Except.ok.inj interpreted).symm

/-- A message field takes a message by its name, which is appended when it is missing. -/
theorem Registers.messages {project middle : Project} {content : Content} {field : Field}
    {reported : String} (registers : Registers project content field reported middle)
    {context : ChoiceContext} {opcode current value : String}
    (interpreted : interpret context opcode current slot value = .ok content) :
    middle.messages = project.messages ++
      if Catalog.isMessageField opcode slot.field = true ∧ project.broadcastByName? value = none then
        [⟨reported, value, .text value⟩] else [] := by
  by_cases isMessage : Catalog.isMessageField opcode slot.field = true
  · obtain rfl := interpret_message isMessage interpreted
    cases registers with
    | known isKnown => simp [isKnown]
    | @created _ stage unknown isFirst =>
      have counted : (project.freshEntityId "broadcast").2.stageIndex? = some stage := isFirst
      rw [Project.messages_withMessage counted, if_pos ⟨isMessage, unknown⟩]
      rfl
  · rw [if_neg fun both => isMessage both.1, List.append_nil]
    cases registers with
    | plain text => rfl
    | reference label id => rfl
    | known _ => rfl
    | created _ _ => exact absurd (interpret_eq_message interpreted).1 isMessage

/-- A value means the same for a field that holds it already. -/
theorem interpret_withField {project middle : Project} {index : Nat} {target : Target}
    (found : project.targets[index]? = some target) {opcode current value reported : String}
    {content : Content} {field : Field}
    (interpreted : interpret ⟨project, index, .headless⟩ opcode current slot value = .ok content)
    (registers : Registers project content field reported middle) (later : String) :
    interpret ⟨middle.putBlocks index
        (target.blocks.modifyBlock slot.block (·.withField slot.field field)), index, .headless⟩
      opcode later { slot with plug := none } value = .ok content := by
  by_cases isMessage : Catalog.isMessageField opcode slot.field = true
  · simp only [interpret, isMessage, if_true] at interpreted ⊢
    exact interpreted
  · have same : middle = project := by
      cases registers with
      | plain text => rfl
      | reference label id => rfl
      | known _ => rfl
      | created _ _ => exact absurd (interpret_eq_message interpreted).1 isMessage
    subst same
    simp only [interpret, isMessage, Bool.false_eq_true, if_false] at interpreted ⊢
    rw [← Project.options?_withField middle found opcode current]
    exact interpreted

/-- What was written means the same afterwards. -/
theorem Writing.interpreted_after {before after : Project} {value : String} {update : FieldUpdate}
    (writing : Writing .headless before id name value update after) (later : String) :
    interpret ⟨after, writing.index, .headless⟩ writing.owner.opcode later
      { writing.slot with plug := none } value = .ok writing.content := by
  have again := interpret_withField
    (Project.get_putBlocks (Project.requireEditing_eq_ok writing.required).2 writing.blocks)
    writing.interpreted writing.registers later
  rwa [← writing.result] at again

/-- Color pickers are of one type. -/
theorem ofOpcode?_eq_color {opcode : String} :
    Catalog.LiteralType.ofOpcode? opcode = some .color ↔ opcode = "colour_picker" := by
  constructor
  · intro found
    have named := List.find?_some found
    exact (of_decide_eq_true named).symm
  · rintro rfl
    rfl

/-- A color picker that was there before refuses a text that is no color code, and nothing else is
refused. -/
theorem validate_settled (slot : Slot) (opcode : String) (content : Content)
    (bare : slot.plug = none) :
    (∃ text, content = .plain text ∧ opcode = "colour_picker" ∧ isColorCode text = false ∧
      validate opcode slot content = .error (.notColor text slot.field)) ∨
    (¬∃ text, content = .plain text ∧ opcode = "colour_picker" ∧ isColorCode text = false) ∧
      validate opcode slot content = .ok () := by
  cases content with
  | plain text =>
    by_cases wrong : opcode = "colour_picker" ∧ isColorCode text = false
    · refine .inl ⟨text, rfl, wrong.1, wrong.2, ?_⟩
      simp [validate, bare, ofOpcode?_eq_color, wrong]
    · refine .inr ⟨?_, ?_⟩
      · rintro ⟨_, ⟨⟩, isPicker, isWrong⟩
        exact wrong ⟨isPicker, isWrong⟩
      · simp only [validate, bare, ofOpcode?_eq_color, Option.isNone_none, Bool.true_and,
          Bool.and_eq_true, decide_eq_true_eq, Bool.not_eq_true', wrong, if_false]
  | reference label id => exact .inr ⟨by rintro ⟨_, ⟨⟩, -⟩, rfl⟩
  | message name => exact .inr ⟨by rintro ⟨_, ⟨⟩, -⟩, rfl⟩

end FieldWrite

namespace Project

variable {project : Project} {editor : Editor} {index : Nat} {target : Target}
  {id name value current : String} {slot : Slot} {owner : Block} {content : Content}
  {success : FieldUpdate → Project → Prop} {failure : Fault → Project → Prop}

/-- A write to a slot that needs no shadow plugged in: the value is checked and put in its place. -/
theorem after_setField_settled (required : project.requireEditing = .ok (index, target))
    (resolves : Resolves target.blocks id name slot target.blocks) (bare : slot.plug = none)
    (stored : target.blocks.get? slot.block = some owner)
    (interpreted : interpret ⟨project, index, editor⟩ owner.opcode
      (((owner.fields.get? slot.field).map Field.value).getD "") slot value = .ok content) :
    After (setField editor id name value) project success failure ↔
      After (do
        Revision.check (validate owner.opcode slot content)
        let (field, reported) ← contentField content
        onBlocks index (Arena.update slot.block (·.withField slot.field field))
        return ⟨slot.field, reported⟩) project success failure := by
  have found := (requireEditing_eq_ok required).2
  have chosen : ∀ {success : Nat → Project → Prop} {failure : Fault → Project → Prop},
      After editingIndex project success failure ↔ success index project := by
    intro success failure
    rw [after_editingIndex, required]
    simp
  rw [setField, after_bind, chosen, after_bind, after_onBlocks_of_get? found,
    after_of_ok (resolve_of_resolves resolves bare), putBlocks_same found, after_tryCatch, bare]
  simp only [after_throw]
  rw [write, after_bind, after_onBlocks_of_get? found, Arena.after_stored_of_get? stored,
    putBlocks_same found]
  simp only [after_bind, after_get]
  rw [after_check, interpreted]
  simp only [Except.ok.injEq, forall_eq', reduceCtorEq, false_implies, implies_true, and_true]
  rfl

/-- Between two states a color picker has come into an input that held no block, and its field `key`
has a text that is no color code. -/
def Miscolored (before after : Project) (id name key : String) : Prop :=
  ∃ index old new block changed child picker text,
    before.requireEditing = .ok (index, old) ∧ after.requireEditing = .ok (index, new) ∧
    old.blocks.get? id = some block ∧ block.plugged? name = none ∧
    new.blocks.get? id = some changed ∧ changed.plugged? name = some child ∧
    new.blocks.get? child = some picker ∧ picker.opcode = "colour_picker" ∧
    picker.fields.get? key = some (.plain text) ∧ isColorCode text = false

section

variable {before after : Project} {update : FieldUpdate}

/-- The second write refuses just what the first one has not checked. -/
theorem miscolored_iff (writing : Writing editor before id name value update after) :
    Miscolored before after id name update.field ↔ ∃ text, writing.content = .plain text ∧
      writing.owner.opcode = "colour_picker" ∧ isColorCode text = false := by
  obtain ⟨final, required, blocks⟩ := writing.required_after
  constructor
  · rintro ⟨index, old, new, block, changed, child, picker, text, oldRequired, newRequired, found,
      empty, lookup, holds, stored, isPicker, isText, isWrong⟩
    cases Except.ok.inj (writing.required.symm.trans oldRequired)
    cases Except.ok.inj (required.symm.trans newRequired)
    rw [blocks] at lookup stored
    obtain ⟨plugs, rfl⟩ := writing.resolves.plugs_of_held found empty lookup holds
    cases Option.some.inj (writing.get?_final.symm.trans stored)
    have held : writing.field = .plain text := by
      rw [writing.slotField, Block.withField, Dict.get?_insert_self] at isText
      exact Option.some.inj isText
    exact ⟨text, (writing.registers.plain_iff text).mp held, isPicker, isWrong⟩
  · rintro ⟨text, isText, isPicker, isWrong⟩
    have valid := writing.valid
    rw [isText] at valid
    have plugs : writing.slot.plug ≠ none := by
      intro bare
      simp [validate, bare, ofOpcode?_eq_color, isPicker, isWrong] at valid
    obtain ⟨block, changed, found, empty, lookup, holds⟩ :=
      writing.resolves.plugged_in plugs writing.field
    have held := (writing.registers.plain_iff text).mpr isText
    refine ⟨writing.index, writing.target, final, block, changed, writing.slot.block,
      writing.owner.withField writing.slot.field writing.field, text, writing.required, required,
      found, empty, ?_, holds, ?_, isPicker, ?_, isWrong⟩
    · rw [blocks]
      exact lookup
    · rw [blocks]
      exact writing.get?_final
    · rw [writing.slotField, Block.withField, Dict.get?_insert_self, held]

/-- The second write finds its slot without any change, and what it writes is there already. -/
theorem after_setField_again (writing : Writing .headless before id name value update after) :
    After (setField .headless id name value) after success failure ↔
      (validate writing.owner.opcode { writing.slot with plug := none } writing.content = .ok () →
        success update after) ∧
      ∀ fault, validate writing.owner.opcode { writing.slot with plug := none } writing.content =
        .error fault → failure fault after := by
  obtain ⟨target, required, blocks⟩ := writing.required_after
  have found := (requireEditing_eq_ok required).2
  have ready : Resolves target.blocks id name { writing.slot with plug := none } target.blocks := by
    rw [blocks]
    exact writing.resolves.settled.withField rfl writing.field
  have stored : target.blocks.get? writing.slot.block =
      some (writing.owner.withField writing.slot.field writing.field) := by
    rw [blocks]
    exact writing.get?_final
  have registered : contentField writing.content after =
      .ok (writing.field, update.value) after := by
    have again := writing.registers.again writing.index writing.final
    rwa [Writing.final, ← writing.result] at again
  have same : target.blocks.modifyBlock writing.slot.block
      (·.withField writing.slot.field writing.field) = target.blocks := by
    apply Arena.modifyBlock_eq_self stored
    simp only [Block.withField, Dict.insert_insert]
  have written : After (do
      let (field, reported) ← contentField writing.content
      onBlocks writing.index (Arena.update writing.slot.block (·.withField writing.slot.field field))
      return ⟨writing.slot.field, reported⟩) after success failure ↔ success update after := by
    rw [after_bind, after_of_ok registered, after_bind, after_onBlocks_of_get? found,
      Arena.after_update_of_get? stored, same, putBlocks_same found, after_pure, ← writing.slotField]
  rw [after_setField_settled required ready rfl stored (writing.interpreted_after _), after_bind,
    after_check, written]
  exact and_congr_left fun _ => ⟨fun each => each (), fun valid _ => valid⟩

/-- Writing the same value again changes nothing and gives the same answer. The one exception is a
color picker that the first write has plugged in and given a text that is no color code: there the
second write fails, and changes nothing either. A message that is missing is appended by the first
write, and the second one finds it. -/
theorem setField_repeated (wrote : setField .headless id name value before = .ok update after) :
    (¬Miscolored before after id name update.field →
      setField .headless id name value after = .ok update after) ∧
    (Miscolored before after id name update.field →
      ∃ fault, setField .headless id name value after = .error fault after ∧ fault.kind = .setFailed) ∧
    ∃ index target written block, after.requireEditing = .ok (index, target) ∧
      (written = id ∨
        ∃ owner, target.blocks.get? id = some owner ∧ owner.plugged? name = some written) ∧
      target.blocks.get? written = some block ∧
      after.messages = before.messages ++
        if Catalog.isMessageField block.opcode update.field = true ∧
          before.broadcastByName? value = none then [⟨update.value, value, .text value⟩] else [] := by
  obtain ⟨writing⟩ := writing_of_setField wrote
  have checked := validate_settled { writing.slot with plug := none } writing.owner.opcode
    writing.content rfl
  refine ⟨fun fine => ?_, fun wrong => ?_, ?_⟩
  · rw [miscolored_iff writing] at fine
    rcases checked with ⟨text, isText, isPicker, isWrong, -⟩ | ⟨-, valid⟩
    · exact absurd ⟨text, isText, isPicker, isWrong⟩ fine
    · have done : After (setField .headless id name value) after
          (fun result next => result = update ∧ next = after) fun _ _ => False := by
        rw [after_setField_again writing, valid]
        simp
      obtain ⟨_, _, ended, rfl, rfl⟩ := exists_ok_of_after done
      exact ended
  · rw [miscolored_iff writing] at wrong
    rcases checked with ⟨text, -, -, -, refused⟩ | ⟨fine, -⟩
    · have done : After (setField .headless id name value) after (fun _ _ => False)
          fun fault next => fault.kind = .setFailed ∧ next = after := by
        rw [after_setField_again writing, refused]
        simp [Fault.kind]
      obtain ⟨fault, _, ended, isSetFailed, rfl⟩ := exists_error_of_after done
      exact ⟨fault, ended, isSetFailed⟩
    · exact absurd wrong fine
  · obtain ⟨target, required, blocks⟩ := writing.required_after
    have messages := writing.registers.messages writing.interpreted
    rw [broadcastByName?, messages_putBlocks, ← writing.slotField] at messages
    refine ⟨writing.index, target, writing.slot.block, _, required, ?_,
      blocks ▸ writing.get?_final, ?_⟩
    · rw [blocks]
      exact (writing.resolves.wrote writing.field).place
    · exact ((congrArg Project.messages writing.result).trans (messages_putBlocks ..)).trans messages

/-- A message that was missing is there at the second write. -/
theorem setField_repeated_message :
    ∃ after, setField .headless "a" "BROADCAST_INPUT" "go" (oneBlockProject "event_broadcast" []) =
        .ok ⟨"BROADCAST_OPTION", "broadcast_1"⟩ after ∧
      setField .headless "a" "BROADCAST_INPUT" "go" after =
        .ok ⟨"BROADCAST_OPTION", "broadcast_1"⟩ after := by
  have wrote : setField .headless "a" "BROADCAST_INPUT" "go" (oneBlockProject "event_broadcast" []) =
      .ok ⟨"BROADCAST_OPTION", "broadcast_1"⟩
        ((setField .headless "a" "BROADCAST_INPUT" "go").final
          (oneBlockProject "event_broadcast" [])) := by
    decide +kernel
  refine ⟨_, wrote, (setField_repeated wrote).1 ?_⟩
  rintro ⟨index, old, new, block, changed, child, picker, text, -, required, -, -, -, -, stored,
    isPicker, -⟩
  -- Neither of the two blocks is a color picker.
  have opcodes : ∀ target ∈ ((setField .headless "a" "BROADCAST_INPUT" "go").final
      (oneBlockProject "event_broadcast" [])).targets, ∀ entry ∈ target.blocks.blocks.entries,
      entry.2.opcode ≠ "colour_picker" := by
    decide +kernel
  have member := List.mem_of_getElem? (requireEditing_eq_ok required).2
  exact opcodes new member (child, picker) ((Dict.get?_eq_some_iff ..).mp stored) isPicker

-- A new color picker takes any text, which is refused where it is written again.
example :
    setField .headless "a" "COLOR" "red" ((setField .headless "a" "COLOR" "red").final
        (oneBlockProject "sensing_touchingcolor" [])) =
      .error (.notColor "red" "COLOUR") ((setField .headless "a" "COLOR" "red").final
        (oneBlockProject "sensing_touchingcolor" [])) := by
  decide +kernel

end

end Project

end BlockGraph
