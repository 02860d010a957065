import BlockGraph.Proofs.Reloading

/-!
Projects that were read, edited and written. Whatever was requested in between, the document is read
again and gives the same project up to what a document cannot tell apart, and that project is written
as the same document.
-/

set_option autoImplicit false

namespace BlockGraph

namespace Arena.Reloads

variable {arena again : Arena} {id : String}

theorem get?_eq_none (reloads : arena.Reloads again) (absent : arena.get? id = none) :
    again.get? id = none := by
  have unlisted : id ∉ again.ids := by
    rw [reloads.ids]
    exact Entries.get?_eq_none_iff.mp absent
  exact Entries.get?_eq_none_iff.mpr unlisted

/-- A block that comes back was there before. -/
theorem exists_of_get? (reloads : arena.Reloads again) {other : Block}
    (found : again.get? id = some other) :
    ∃ block, arena.get? id = some block ∧ block.Reloads other := by
  cases before : arena.get? id with
  | none =>
    rw [reloads.get?_eq_none before] at found
    cases found
  | some block =>
    obtain ⟨copy, lookup, same⟩ := reloads.blocks id block before
    rw [found] at lookup
    cases lookup
    exact ⟨block, rfl, same⟩

end Arena.Reloads

namespace Document

open Outcomes

theorem name_reloaded (input : Input) : input.reloaded.name = input.name := rfl

/-- An input and what it comes back as are written alike. -/
theorem writeInput_reloaded (input : Input) : writeInput input.reloaded = writeInput input := by
  obtain ⟨name, block, shadow⟩ := input
  cases block with
  | some block => rfl
  | none =>
    cases shadow with
    | none => rfl
    | some shadow => simp [Input.reloaded, writeInput]

theorem getD_coordinate {block : Block} (top : block.topLevel = true) (x : Option Binary64) :
    (block.coordinate x).getD Binary64.zero = x.getD Binary64.zero := by
  simp [Block.coordinate, top]

theorem writeInputs_reloads {block again : Block} (tidy : block.Tidy)
    (reloads : block.Reloads again) : writeInputs again = writeInputs block := by
  have inputs : (again.inputs.map fun input => (input.name, writeInput input)).Perm
      (block.inputs.map fun input => (input.name, writeInput input)) := by
    have mapped := reloads.inputs.map fun input => (input.name, writeInput input)
    rw [List.map_map] at mapped
    simpa only [Function.comp_def, name_reloaded, writeInput_reloaded] using mapped
  have slots : (writtenSlots again).Perm (writtenSlots block) := by
    simp only [writtenSlots, Block.branch, reloads.branches]
    exact inputs.append_right _
  exact congrArg Json.ofDict (Dict.ofList_eq_of_perm slots (distinct_writtenSlots tidy))

theorem writeBlock_reloads {block again : Block} (tidy : block.Tidy)
    (reloads : block.Reloads again) : writeBlock again = writeBlock block := by
  have members : writtenMembers again = writtenMembers block := by
    simp only [writtenMembers, writeInputs_reloads tidy reloads, reloads.opcode, reloads.next,
      reloads.parent, reloads.fields, reloads.topLevel, reloads.mutation, reloads.x, reloads.y]
    cases top : block.topLevel with
    | false => rfl
    | true => simp only [getD_coordinate top]
  exact congrArg Json.ofMembers members

/-- Entities with different ids are written in the order of their ids. -/
theorem ofMembers_entities {entities again : List Entity} (write : Entity → Json)
    (same : again.Perm entities) (distinct : (entities.map Entity.id).Nodup) :
    Json.ofMembers (again.map fun entity => (entity.id, write entity)) =
      Json.ofMembers (entities.map fun entity => (entity.id, write entity)) := by
  have keys : (entities.map fun entity => (entity.id, write entity)).map Prod.fst =
      entities.map Entity.id := by
    rw [List.map_map]
    rfl
  exact congrArg Json.ofDict (Dict.ofList_eq_of_perm (same.map _) (keys ▸ distinct))

theorem writeLists_listed {lists again : List Entity} (same : again.Perm (lists.map Entity.listed))
    (distinct : (lists.map Entity.id).Nodup) : writeLists again = writeLists lists := by
  have ids : (lists.map Entity.listed).map Entity.id = lists.map Entity.id := by
    rw [List.map_map]
    rfl
  have sorted : writeLists again = writeLists (lists.map Entity.listed) :=
    ofMembers_entities _ same (ids ▸ distinct)
  rw [sorted, writeLists, List.map_map]
  rfl

theorem writeBlocks_reloads {arena again : Arena} (tidy : arena.Tidy)
    (reloads : arena.Reloads again) :
    (again.blocks.map fun _ block => writeBlock block) =
      arena.blocks.map fun _ block => writeBlock block := by
  apply Dict.ext_get?
  intro id
  rw [Dict.get?_map, Dict.get?_map]
  cases found : arena.blocks.get? id with
  | some block =>
    obtain ⟨other, lookup, same⟩ := reloads.blocks id block found
    have lookup : again.blocks.get? id = some other := lookup
    rw [lookup, Option.map_some, Option.map_some,
      writeBlock_reloads (tidy.blocks id block found) same]
  | none =>
    have missing : again.blocks.get? id = none := reloads.get?_eq_none found
    rw [missing]

theorem writeTarget_reloads {target again : Target} (storable : target.Storable)
    (reloads : target.Reloads again) : writeTarget again = writeTarget target := by
  have distinct := storable.distinct
  have vars : writeVariables again.vars = writeVariables target.vars :=
    ofMembers_entities _ reloads.vars distinct.vars
  have lists : writeLists again.lists = writeLists target.lists :=
    writeLists_listed reloads.lists distinct.lists
  have broadcasts : writeBroadcasts again.broadcasts = writeBroadcasts target.broadcasts :=
    ofMembers_entities _ reloads.broadcasts distinct.broadcasts
  simp only [writeTarget, reloads.name, reloads.isStage, reloads.rest, vars, lists, broadcasts,
    writeBlocks_reloads storable.tidy reloads.blocks]

theorem readTargets_writeTargets {targets : List Target}
    (storable : ∀ target ∈ targets, target.Storable) :
    ∃ again, List.Forall₂ (fun written read => readTarget written = .ok read)
        (targets.map writeTarget) again ∧
      List.Forall₂ Target.Reloads targets again ∧
      again.map writeTarget = targets.map writeTarget := by
  induction targets with
  | nil => exact ⟨[], .nil, .nil, rfl⟩
  | cons target rest ih =>
    obtain ⟨first, others⟩ := List.forall_mem_cons.mp storable
    obtain ⟨again, read, reloads⟩ := readTarget_writeTarget first
    obtain ⟨later, readLater, reloadsLater, written⟩ := ih others
    refine ⟨again :: later, .cons read readLater, .cons reloads reloadsLater, ?_⟩
    rw [List.map_cons, List.map_cons, written, writeTarget_reloads first reloads]

/-- A storable project is read from its document, target by target. -/
theorem readProject_writeProject {project : Project} (storable : project.Storable) :
    ∃ again, readProject (writeProject project) = .ok again ∧
      List.Forall₂ Target.Reloads project.targets again.targets ∧ again.rest = project.rest ∧
      writeProject again = writeProject project := by
  obtain ⟨targets, read, reloads, written⟩ := readTargets_writeTargets storable.targets
  have listed : ((writeProject project).get? "targets").bind Json.items? =
      some (project.targets.map writeTarget) := by
    rw [writeProject, Json.get?_ofDict, Dict.get?_insert, if_pos rfl]
    rfl
  have rest : ((writeProject project).members?.getD ∅).erase "targets" = project.rest := by
    rw [writeProject, Json.members?_ofDict, Option.getD_some]
    apply Dict.ext_get?
    intro key
    rw [Dict.get?_erase, Dict.get?_insert]
    by_cases own : "targets" = key
    · rw [if_pos own, ← own, storable.unmodelled]
    · rw [if_neg own, if_neg own]
  refine ⟨_, readProject_eq_ok.mpr ⟨_, targets, listed, read, rfl⟩, reloads, rest, ?_⟩
  rw [rest]
  simp only [writeProject, Project.ofTargets, written]

end Document

namespace Session

/-- A project that was read and then edited comes back from its document, which is written again
without a change. -/
theorem reloads_of_requests {value : Json} {session : Session}
    (read : Document.readProject value = .ok session.project) (requests : List Request) :
    let project := (session.executeAll requests).2.project
    ∃ again, Document.readProject (Document.writeProject project) = .ok again ∧
      List.Forall₂ Target.Reloads project.targets again.targets ∧ again.rest = project.rest ∧
      Document.writeProject again = Document.writeProject project :=
  Document.readProject_writeProject
    (executeAll_storable (Document.storable_readProject read) requests)

/-- A document with a list that has no items and a block whose place is not known. -/
def unplacedDocument : Json :=
  .ofMembers [("targets", .array [.ofMembers
    [("name", .text "Cat"), ("isStage", .bool false),
      ("lists", .ofMembers [("l", .array [.text "things", .null])]),
      ("blocks", .ofMembers [("a", .ofMembers
        [("opcode", .text "motion_ifonedgebounce"), ("topLevel", .bool true)])])]])]

def unplaced : Session where
  project := .ofTargets [{
    name := "Cat"
    isStage := false
    blocks :=
      { blocks := .ofList [("a", { opcode := "motion_ifonedgebounce", topLevel := true })]
        scripts := ["a"] }
    lists := [⟨"l", "things", .null⟩]
    rest := .ofList [("name", .text "Cat"), ("isStage", .bool false)] }] ∅

def addTurn : Request :=
  ⟨"add_block", .ofMembers [("blockType", .text "motion_turnright")]⟩

/-- Another block is added before the document is written. -/
theorem reloads_of_requests_unplaced :
    Document.readProject unplacedDocument = .ok unplaced.project ∧
      (unplaced.executeAll [addTurn]).2.project.targets.map (fun target => target.blocks.ids) =
        [["a", "block_1", "shadow_2"]] ∧
      ∃ again, Document.readProject
          (Document.writeProject (unplaced.executeAll [addTurn]).2.project) = .ok again ∧
        List.Forall₂ Target.Reloads (unplaced.executeAll [addTurn]).2.project.targets
          again.targets := by
  have read : Document.readProject unplacedDocument = .ok unplaced.project := by decide +kernel
  obtain ⟨again, reloaded, reloads, -⟩ := reloads_of_requests read [addTurn]
  exact ⟨read, by decide +kernel, again, reloaded, reloads⟩

end Session

end BlockGraph
