import BlockGraph.Document.Writer
import BlockGraph.Proofs.Reading

/-!
Writing a project and reading it again. Every part of a storable project comes back as it was, up to
the order of what is kept by name or id, and up to what a document cannot tell apart: an input that
shows its shadow, a place that is not known, and the value of a list that is no array.
-/

set_option autoImplicit false

namespace BlockGraph

/-- An input that shows nothing else shows its shadow. -/
def Input.reloaded (input : Input) : Input :=
  { input with block := input.block.or input.shadow }

/-- A list that has no items is empty. -/
def Entity.listed (list : Entity) : Entity :=
  { list with value := .array (list.value.items?.getD []) }

/-- The place of a block: a top-level block has one, at the origin when it is not known. -/
def Block.coordinate (block : Block) (x : Option Binary64) : Option Binary64 :=
  if block.topLevel then some (x.getD Binary64.zero) else x

/-- What a block comes back as. Its inputs are the same by name, and sorted. -/
structure Block.Reloads (block again : Block) : Prop where
  opcode : again.opcode = block.opcode
  fields : again.fields = block.fields
  distinct : (block.inputs.map Input.name).Nodup
  inputs : again.inputs.Perm (block.inputs.map Input.reloaded)
  sorted : (again.inputs.map Input.name).Pairwise (· < ·)
  branches : again.branches = block.branches
  next : again.next = block.next
  parent : again.parent = block.parent
  topLevel : again.topLevel = block.topLevel
  x : again.x = block.coordinate block.x
  y : again.y = block.coordinate block.y
  mutation : again.mutation = block.mutation

/-- What the blocks of a target come back as. -/
structure Arena.Reloads (arena again : Arena) : Prop where
  ids : again.ids = arena.ids
  blocks : ∀ id block, arena.get? id = some block →
    ∃ other, again.get? id = some other ∧ block.Reloads other

/-- What a target comes back as. Entities of one kind have different ids and are the same by id. -/
structure Target.Reloads (target again : Target) : Prop where
  name : again.name = target.name
  isStage : again.isStage = target.isStage
  costumes : again.costumes = target.costumes
  sounds : again.sounds = target.sounds
  rest : again.rest = target.rest
  distinct : target.Distinct
  vars : again.vars.Perm target.vars
  lists : again.lists.Perm (target.lists.map Entity.listed)
  broadcasts : again.broadcasts.Perm target.broadcasts
  blocks : target.blocks.Reloads again.blocks

namespace Document

open Outcomes

theorem readInput_writeInput (input : Input) :
    readInput input.name (writeInput input) = input.reloaded := by
  obtain ⟨name, block, shadow⟩ := input
  cases block with
  | none =>
    cases shadow with
    | none => rfl
    | some shadow => rfl
  | some block =>
    cases shadow with
    | none => rfl
    | some shadow =>
      by_cases same : block = shadow
      · subst same
        simp only [writeInput, if_true]
        rfl
      · simp only [writeInput, same, if_false]
        rfl

theorem pendingOf_writeInput (owner name : String) (input : Input) :
    pendingOf owner name (writeInput input) = [] := by
  obtain ⟨_, block, shadow⟩ := input
  cases block with
  | none => cases shadow <;> rfl
  | some block =>
    cases shadow with
    | none => rfl
    | some shadow =>
      by_cases same : block = shadow <;> simp only [writeInput, same, if_true, if_false] <;> rfl

/-- The slots of a block as they are written: inputs, then branches. -/
def writtenSlots (block : Block) : List (String × Json) :=
  block.inputs.map (fun input => (input.name, writeInput input)) ++
    Branch.all.filterMap fun branch =>
      (block.branch branch).map fun head => (branch.name, .array [.ofNat 2, .text head])

theorem mem_branchSlots {block : Block} {slot : String × Json}
    (member : slot ∈ Branch.all.filterMap fun branch => (block.branch branch).map fun head =>
      (branch.name, Json.array [.ofNat 2, .text head])) :
    ∃ branch head, block.branch branch = some head ∧
      slot = (branch.name, .array [.ofNat 2, .text head]) := by
  obtain ⟨branch, -, found⟩ := List.mem_filterMap.mp member
  obtain ⟨head, held, rfl⟩ := Option.map_eq_some_iff.mp found
  exact ⟨branch, head, held, rfl⟩

theorem distinct_writtenSlots {block : Block} (tidy : block.Tidy) :
    ((writtenSlots block).map Prod.fst).Nodup := by
  rw [writtenSlots, List.map_append, List.map_map]
  apply List.nodup_append.mpr
  refine ⟨tidy.distinctInputs, ?_, ?_⟩
  · rw [List.map_filterMap]
    simp only [Option.map_map, Branch.all, List.filterMap_cons, List.filterMap_nil]
    cases block.branch .first <;> cases block.branch .second <;> simp [Branch.name]
  · rintro name inside _ outside rfl
    obtain ⟨input, member, rfl⟩ := List.mem_map.mp inside
    obtain ⟨slot, written, same⟩ := List.mem_map.mp outside
    obtain ⟨branch, head, -, rfl⟩ := mem_branchSlots written
    have isValue := tidy.valueInputs input member
    have isBranch : Branch.ofName? input.name = some branch :=
      Branch.ofName?_eq_some_iff.mpr same
    rw [isValue] at isBranch
    cases isBranch

/-- Members of a block as they are written. -/
def writtenMembers (block : Block) : List (String × Json) :=
  [("opcode", .text block.opcode), ("next", .ofText? block.next),
    ("parent", .ofText? block.parent), ("inputs", writeInputs block),
    ("fields", writeFields block.fields),
    ("shadow", .bool (Catalog.kind block.opcode = .shadow)),
    ("topLevel", .bool block.topLevel)] ++
  (if block.topLevel then
    [("x", .ofBinary64 (block.x.getD Binary64.zero)),
      ("y", .ofBinary64 (block.y.getD Binary64.zero))] else []) ++
  (block.mutation.map fun value => ("mutation", value)).toList

theorem get?_writeBlock (block : Block) (key : String) :
    (writeBlock block).get? key = Entries.get? key (writtenMembers block) := by
  have distinct : ((writtenMembers block).map Prod.fst).Nodup := by
    rw [writtenMembers]
    cases block.topLevel <;> cases block.mutation <;> simp
  exact (Json.get?_ofMembers _ key).trans (Dict.get?_ofList_of_nodup distinct key)

theorem textAt?_writeBlock {block : Block} {key : String} {text : Option String}
    (found : Entries.get? key (writtenMembers block) = some (.ofText? text)) :
    (writeBlock block).textAt? key = text := by
  rw [Json.textAt?, get?_writeBlock, found]
  cases text <;> rfl

theorem slots_writeBlock (block : Block) : ((writeBlock block).get? "inputs").bind Json.members? =
    some (.ofList (writtenSlots block)) := by
  rw [get?_writeBlock]
  exact Json.members?_ofDict _

/-- A branch is read back. -/
theorem readBranch_writeBlock {block : Block} (tidy : block.Tidy) (branch : Branch) :
    readBranch (writeBlock block) branch = block.branch branch := by
  have slots : (writeBlock block).get? "inputs" = some (.ofMembers (writtenSlots block)) := by
    rw [get?_writeBlock]
    rfl
  simp only [readBranch, slots, Option.bind_eq_bind, Option.bind_some, Json.get?_ofMembers]
  cases held : block.branch branch with
  | some head =>
    have member : (branch.name, Json.array [.ofNat 2, .text head]) ∈ writtenSlots block := by
      apply List.mem_append_right
      refine List.mem_filterMap.mpr ⟨branch, ?_, by rw [held]; rfl⟩
      cases branch <;> simp [Branch.all]
    rw [(Dict.get?_ofList_eq_some_iff (distinct_writtenSlots tidy)).mpr member]
    rfl
  | none =>
    have absent : branch.name ∉ (writtenSlots block).map Prod.fst := by
      intro inside
      obtain ⟨slot, written, same⟩ := List.mem_map.mp inside
      have isBranch : Branch.ofName? slot.1 = some branch :=
        Branch.ofName?_eq_some_iff.mpr same.symm
      rcases List.mem_append.mp written with value | other
      · obtain ⟨input, member, rfl⟩ := List.mem_map.mp value
        rw [tidy.valueInputs input member] at isBranch
        cases isBranch
      · obtain ⟨owner, head, found, rfl⟩ := mem_branchSlots other
        have reverse := Branch.ofName?_eq_some_iff.mpr (rfl : owner.name = owner.name)
        rw [Option.some.inj (reverse.symm.trans isBranch), held] at found
        cases found
    rw [Dict.get?_ofList_eq_none absent]
    rfl

theorem valueSlots_writeBlock {block : Block} (tidy : block.Tidy) :
    (valueSlots (writeBlock block)).Perm
      (block.inputs.map fun input => (input.name, writeInput input)) := by
  let isValue := fun slot : String × Json => (Branch.ofName? slot.1).isNone
  have inputs : (block.inputs.map fun input => (input.name, writeInput input)).filter isValue =
      block.inputs.map fun input => (input.name, writeInput input) := by
    apply List.filter_eq_self.mpr
    intro slot member
    obtain ⟨input, inside, rfl⟩ := List.mem_map.mp member
    simp [isValue, tidy.valueInputs input inside]
  have branches : (Branch.all.filterMap fun branch => (block.branch branch).map fun head =>
      (branch.name, Json.array [.ofNat 2, .text head])).filter isValue = [] := by
    apply List.filter_eq_nil_iff.mpr
    intro slot member
    obtain ⟨branch, head, -, rfl⟩ := mem_branchSlots member
    simp [isValue, Branch.ofName?_eq_some_iff.mpr (rfl : branch.name = branch.name)]
  have written : (writtenSlots block).filter isValue =
      block.inputs.map fun input => (input.name, writeInput input) := by
    rw [writtenSlots, List.filter_append, inputs, branches, List.append_nil]
  have sorted := (Dict.entries_ofList_perm (distinct_writtenSlots tidy)).filter isValue
  rw [written] at sorted
  simp only [valueSlots, slots_writeBlock, Option.getD_some]
  exact sorted

theorem readFields_writeFields (fields : Dict Field) :
    (fields.map fun _ field => Json.array [.text field.value, .ofText? field.id]).map
      (fun _ field => readField field) = fields := by
  apply Dict.ext_get?
  intro key
  rw [Dict.get?_map, Dict.get?_map, Option.map_map]
  cases fields.get? key with
  | none => rfl
  | some field =>
    obtain ⟨value, id⟩ := field
    cases id <;> rfl

theorem inputs_writeBlock {block : Block} (tidy : block.Tidy) :
    ((valueSlots (writeBlock block)).map fun slot => readInput slot.1 slot.2).Perm
      (block.inputs.map Input.reloaded) := by
  have mapped := (valueSlots_writeBlock tidy).map fun slot => readInput slot.1 slot.2
  rw [List.map_map] at mapped
  have each : block.inputs.map ((fun slot : String × Json => readInput slot.1 slot.2) ∘
      fun input => (input.name, writeInput input)) = block.inputs.map Input.reloaded :=
    List.map_congr_left fun input _ => readInput_writeInput input
  rwa [each] at mapped

theorem sorted_readInputs (value : Json) :
    (((valueSlots value).map fun slot => readInput slot.1 slot.2).map Input.name).Pairwise
      (· < ·) := by
  rw [names_readInputs]
  exact (List.Pairwise.filter _ (Dict.sorted _)).map Prod.fst fun _ _ less => less

/-- A coordinate is read back when the block is the top of a script, and then it is known. -/
theorem coordinate_writeBlock {block : Block} {key : String} {x : Option Binary64}
    (written : block.topLevel = true → Entries.get? key (writtenMembers block) =
      some (.ofBinary64 (x.getD Binary64.zero)))
    (placed : block.topLevel = false → x = none) :
    (if block.topLevel then ((writeBlock block).get? key).bind Json.binary64? else none) =
      block.coordinate x := by
  rw [Block.coordinate]
  cases top : block.topLevel with
  | false => exact (placed top).symm
  | true =>
    rw [get?_writeBlock, written top]
    rfl

theorem mutation_writeBlock (block : Block) :
    (writeBlock block).get? "mutation" = block.mutation := by
  rw [get?_writeBlock, writtenMembers]
  cases block.topLevel <;> cases block.mutation <;> rfl

theorem readBlock_writeBlock {block : Block} (tidy : block.Tidy) (id : String) :
    ∃ again, readBlock id (writeBlock block) = .ok again ∧ block.Reloads again := by
  have opcode : (writeBlock block).textAt? "opcode" = some block.opcode :=
    textAt?_writeBlock rfl
  have next : (writeBlock block).textAt? "next" = block.next := textAt?_writeBlock rfl
  have parent : (writeBlock block).textAt? "parent" = block.parent := textAt?_writeBlock rfl
  have topLevel : ((writeBlock block).get? "topLevel").bind Json.bool? = some block.topLevel := by
    rw [get?_writeBlock]
    rfl
  have fields : ((writeBlock block).get? "fields").bind Json.members? =
      some (block.fields.map fun _ field => .array [.text field.value, .ofText? field.id]) := by
    rw [get?_writeBlock]
    exact Json.members?_ofDict _
  have x : (if block.topLevel then ((writeBlock block).get? "x").bind Json.binary64? else none) =
      block.coordinate block.x := by
    apply coordinate_writeBlock
    · intro top
      rw [writtenMembers, top]
      rfl
    · exact fun below => (tidy.placed below).1
  have y : (if block.topLevel then ((writeBlock block).get? "y").bind Json.binary64? else none) =
      block.coordinate block.y := by
    apply coordinate_writeBlock
    · intro top
      rw [writtenMembers, top]
      rfl
    · exact fun below => (tidy.placed below).2
  simp only [readBlock, opcode, topLevel, fields, next, parent, mutation_writeBlock,
    Option.getD_some, x, y, readFields_writeFields, readBranch_writeBlock tidy]
  refine ⟨_, rfl, ?_⟩
  constructor
  case inputs => simpa only using inputs_writeBlock tidy
  case sorted => simpa only using sorted_readInputs (writeBlock block)
  case distinct => exact tidy.distinctInputs
  all_goals rfl

theorem writtenBlock_writeBlock (id : String) (block : Block) :
    writtenBlock (id, writeBlock block) = (readBlock id (writeBlock block)).map some := rfl

theorem standingLiteral_writeBlock (id : String) (block : Block) :
    standingLiteral (id, writeBlock block) = .ok none := rfl

theorem pendingInputs_writeBlock {block : Block} (tidy : block.Tidy) (id : String) :
    pendingInputs (id, writeBlock block) = [] := by
  change (valueSlots (writeBlock block)).flatMap (fun slot => pendingOf id slot.1 slot.2) = []
  apply List.flatMap_eq_nil_iff.mpr
  intro slot member
  obtain ⟨input, -, rfl⟩ := List.mem_map.mp ((valueSlots_writeBlock tidy).mem_iff.mp member)
  exact pendingOf_writeInput id input.name input

/-- Blocks that are all written in full are read in one pass. -/
theorem readBlocks_writeBlock {arena : Arena} (tidy : arena.Tidy) :
    ∃ written, readBlocks (arena.blocks.map fun _ block => writeBlock block) =
        .ok (written.sortScripts scriptKey scriptLe) ∧ arena.Reloads written := by
  let written := arena.blocks.map fun _ block => writeBlock block
  have stored : ∀ entry ∈ written.entries, ∃ id block, arena.get? id = some block ∧
      entry = (id, writeBlock block) := by
    intro entry member
    obtain ⟨⟨id, block⟩, inside, rfl⟩ := List.mem_map.mp member
    exact ⟨id, block, (arena.blocks.get?_eq_some_iff id block).mpr inside, rfl⟩
  obtain ⟨again, first⟩ : ∃ again, written.entries.foldlM storeBlock {} = .ok again := by
    apply foldlM_succeeds
    intro state entry member
    obtain ⟨id, block, found, rfl⟩ := stored entry member
    obtain ⟨other, read, -⟩ := readBlock_writeBlock (tidy.blocks id block found) id
    rw [storeBlock_eq]
    simp only [writtenBlock_writeBlock, read]
    exact ⟨_, rfl⟩
  have second : written.entries.foldlM storeLiteral again = .ok again := by
    apply foldlM_idle
    intro entry member
    obtain ⟨id, block, -, rfl⟩ := stored entry member
    rw [storeLiteral_eq]
    simp only [standingLiteral_writeBlock]
    rfl
  have third : written.entries.flatMap pendingInputs = [] := by
    apply List.flatMap_eq_nil_iff.mpr
    intro entry member
    obtain ⟨id, block, found, rfl⟩ := stored entry member
    exact pendingInputs_writeBlock (tidy.blocks id block found) id
  refine ⟨again, readBlocks_eq_ok.mpr ⟨again, again, again, first, second, ?_, rfl⟩, ?_⟩
  · rw [third]
    rfl
  · rw [storeBlock_eq] at first
    obtain ⟨inside, outside⟩ := get?_of_store (Entries.nodup_keys written.sorted) first
    have reloads : ∀ id block, arena.get? id = some block →
        ∃ other, again.get? id = some other ∧ block.Reloads other := by
      intro id block found
      have member : (id, writeBlock block) ∈ written.entries :=
        List.mem_map.mpr ⟨(id, block), (arena.blocks.get?_eq_some_iff id block).mp found, rfl⟩
      obtain ⟨other, read, reloads⟩ := readBlock_writeBlock (tidy.blocks id block found) id
      obtain ⟨own, outcome, lookup⟩ := inside _ member
      rw [writtenBlock_writeBlock, read] at outcome
      cases outcome
      exact ⟨other, lookup, reloads⟩
    refine ⟨?_, reloads⟩
    apply Dict.keys_eq_of_isSome
    intro id
    change (again.get? id).isSome = (arena.get? id).isSome
    cases found : arena.get? id with
    | some block =>
      obtain ⟨other, lookup, -⟩ := reloads id block found
      rw [lookup]
      rfl
    | none =>
      have absent : id ∉ written.entries.map Prod.fst := by
        intro member
        obtain ⟨entry, listed, rfl⟩ := List.mem_map.mp member
        obtain ⟨other, block, lookup, rfl⟩ := stored entry listed
        rw [found] at lookup
        cases lookup
      rw [outside id absent]
      rfl

/-- Entities that are written under their own ids are read back, sorted by id. -/
theorem filterMap_entities {read : String × Json → Option Entity} {write : Entity → Json}
    {reloaded : Entity → Entity} {entities : List Entity}
    (distinct : (entities.map Entity.id).Nodup)
    (each : ∀ entity ∈ entities, read (entity.id, write entity) = some (reloaded entity)) :
    ((Dict.ofList (entities.map fun entity => (entity.id, write entity))).entries.filterMap
      read).Perm (entities.map reloaded) := by
  have keys : (entities.map fun entity => (entity.id, write entity)).map Prod.fst =
      entities.map Entity.id := by
    rw [List.map_map]
    rfl
  have sorted := (Dict.entries_ofList_perm (keys ▸ distinct)).filterMap read
  have all : (entities.map fun entity => (entity.id, write entity)).filterMap read =
      entities.map reloaded := by
    rw [List.filterMap_map, ← List.filterMap_eq_map]
    exact List.filterMap_congr each
  rwa [all] at sorted

theorem readDeclarations_writeVariables {vars : List Entity}
    (distinct : (vars.map Entity.id).Nodup) :
    (readDeclarations (some (writeVariables vars))).Perm vars := by
  have members : (some (writeVariables vars)).bind Json.members? = some _ := Json.members?_ofDict _
  have each : ∀ entity ∈ vars,
      declaration? (entity.id, .array [.text entity.name, entity.value]) = some (id entity) :=
    fun _ _ => rfl
  rw [readDeclarations_eq, members]
  simpa using filterMap_entities distinct each

theorem readDeclarations_writeLists {lists : List Entity}
    (distinct : (lists.map Entity.id).Nodup) :
    (readDeclarations (some (writeLists lists))).Perm (lists.map Entity.listed) := by
  have members : (some (writeLists lists)).bind Json.members? = some _ := Json.members?_ofDict _
  rw [readDeclarations_eq, members]
  exact filterMap_entities distinct fun _ _ => rfl

theorem readBroadcasts_writeBroadcasts {broadcasts : List Entity}
    (distinct : (broadcasts.map Entity.id).Nodup)
    (messages : ∀ message ∈ broadcasts, message.value = .text message.name) :
    (readBroadcasts (some (writeBroadcasts broadcasts))).Perm broadcasts := by
  have members : (some (writeBroadcasts broadcasts)).bind Json.members? = some _ :=
    Json.members?_ofDict _
  have each : ∀ message ∈ broadcasts,
      message? (message.id, .text message.name) = some (id message) := by
    intro message member
    change some (⟨message.id, message.name, .text message.name⟩ : Entity) = some message
    rw [← messages message member]
  rw [readBroadcasts_eq, members]
  simpa using filterMap_entities distinct each

/-- Members of a target that are written from the project itself. -/
def writtenTarget (target : Target) : List (String × Json) :=
  [("name", .text target.name), ("isStage", .bool target.isStage),
    ("variables", writeVariables target.vars), ("lists", writeLists target.lists),
    ("broadcasts", writeBroadcasts target.broadcasts),
    ("blocks", .ofDict (target.blocks.blocks.map fun _ block => writeBlock block))]

theorem get?_writeTarget (target : Target) (key : String) : (writeTarget target).get? key =
    (Entries.get? key (writtenTarget target)).or (target.rest.get? key) := by
  have distinct : ((writtenTarget target).map Prod.fst).Nodup := by simp [writtenTarget]
  exact (Json.get?_ofDict _ key).trans (Dict.get?_foldl_insert target.rest distinct key)

theorem rest_writeTarget {target : Target} (carried : target.Carried) :
    modelledMembers.foldl Dict.erase ((writeTarget target).members?.getD ∅) = target.rest := by
  apply Dict.ext_get?
  intro key
  rw [Dict.get?_foldl_erase, ← Json.get?_eq, get?_writeTarget]
  split
  · exact (carried.unmodelled key ‹_›).symm
  · rename_i carriedKey
    simp only [modelledMembers, List.mem_cons, List.not_mem_nil, or_false, not_or] at carriedKey
    by_cases isName : key = "name"
    · subst isName
      exact carried.name.symm
    by_cases isFlag : key = "isStage"
    · subst isFlag
      exact carried.isStage.symm
    have absent : Entries.get? key (writtenTarget target) = none := by
      apply Entries.get?_eq_none_iff.mpr
      simp only [writtenTarget, List.map_cons, List.map_nil, List.mem_cons, List.not_mem_nil]
      tauto
    rw [absent, Option.none_or]

theorem readTarget_writeTarget {target : Target} (storable : target.Storable) :
    ∃ again, readTarget (writeTarget target) = .ok again ∧ target.Reloads again := by
  obtain ⟨written, stored, reloads⟩ := readBlocks_writeBlock storable.tidy
  have lookup := get?_writeTarget target
  have named : (writeTarget target).textAt? "name" = some target.name := by
    rw [Json.textAt?, lookup]
    rfl
  have flagged : ((writeTarget target).get? "isStage").bind Json.bool? = some target.isStage := by
    rw [lookup]
    rfl
  have blocks : ((writeTarget target).get? "blocks").bind Json.members? =
      some (target.blocks.blocks.map fun _ block => writeBlock block) := by
    rw [lookup]
    exact Json.members?_ofDict _
  have vars : (writeTarget target).get? "variables" = some (writeVariables target.vars) := by
    rw [lookup]
    rfl
  have lists : (writeTarget target).get? "lists" = some (writeLists target.lists) := by
    rw [lookup]
    rfl
  have broadcasts : (writeTarget target).get? "broadcasts" =
      some (writeBroadcasts target.broadcasts) := by
    rw [lookup]
    rfl
  have costumes : (writeTarget target).get? "costumes" = target.rest.get? "costumes" := by
    rw [lookup]
    rfl
  have sounds : (writeTarget target).get? "sounds" = target.rest.get? "sounds" := by
    rw [lookup]
    rfl
  have distinct := storable.distinct
  have carried := storable.carried
  have read := readTarget_eq_ok.mpr ⟨_, _, _, _, named, flagged, .inr blocks, stored, rfl⟩
  rw [vars, lists, broadcasts, costumes, sounds, rest_writeTarget carried] at read
  refine ⟨_, read, ?_⟩
  constructor
  case costumes => exact carried.costumes.symm
  case sounds => exact carried.sounds.symm
  case distinct => exact distinct
  case vars => exact readDeclarations_writeVariables distinct.vars
  case lists => exact readDeclarations_writeLists distinct.lists
  case broadcasts => exact readBroadcasts_writeBroadcasts distinct.broadcasts distinct.messages
  case blocks => exact ⟨reloads.ids, reloads.blocks⟩
  all_goals rfl

end Document

end BlockGraph
