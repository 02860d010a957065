import BlockGraph.Proofs.Identifier
import BlockGraph.Proofs.Outline
import BlockGraph.Proofs.Reading

/-!
Listings of arbitrary graphs. A listing of a project that was read from a document either shows every
visible block that the scripts lead to, once and in depth-first order, or fails; and it fails exactly
when one of these blocks refers to a missing block or is referred to twice.
-/

set_option autoImplicit false

namespace BlockGraph

open Search

namespace Listing

theorem get?_toJson (listing : Listing) (key : String) :
    listing.toJson.get? key = Entries.get? key listing.members := by
  rw [toJson, Json.get?_ofMembers]
  exact Dict.get?_ofList_of_nodup (by simp [members]) key

/-- The records by number: the first one has number one, and there are no others. -/
def Numbered (listing : Listing) (table : Dict Json) : Prop :=
  ∀ key entry, table.get? key = some entry ↔
    ∃ position record, listing.records[position]? = some record ∧
      key = (position + 1).repr ∧ entry = record.toJson

/-- The records by id. -/
def Named (listing : Listing) (table : Dict Json) : Prop :=
  ∀ key entry, table.get? key = some entry ↔
    ∃ record ∈ listing.records, key = record.id ∧ entry = record.toJson

/-- What a listing shows of an arena. -/
structure Shows (arena : Arena) (listing : Listing) : Prop where
  order : Preorder arena Outline.visible arena.scripts listing.numbering
  distinct : listing.numbering.Nodup
  mem_iff : ∀ id, id ∈ listing.numbering ↔ Reached arena Outline.visible arena.scripts id
  stored : ∀ record ∈ listing.records, arena.get? record.id = some record.block
  numbered : ∃ table, (listing.toJson.get? "idxToBlock").bind Json.members? = some table ∧
    listing.Numbered table
  named : ∃ table, (listing.toJson.get? "idToBlock").bind Json.members? = some table ∧
    listing.Named table

theorem exists_numbered (listing : Listing) :
    ∃ table, (listing.toJson.get? "idxToBlock").bind Json.members? = some table ∧
      listing.Numbered table := by
  let entries := listing.records.zipIdx.map fun entry => ((entry.2 + 1).repr, entry.1.toJson)
  have distinct : (entries.map Prod.fst).Nodup := by
    have positions : entries.map Prod.fst =
        (listing.records.zipIdx.map Prod.snd).map fun index => (index + 1).repr := by
      rw [List.map_map, List.map_map]
      rfl
    rw [positions, List.zipIdx_map_snd]
    refine List.Nodup.map (fun first second same => ?_) List.nodup_range'
    have numbers := Identifier.repr_injective same
    omega
  refine ⟨Dict.ofList entries, ?_, fun key entry => ?_⟩
  · rw [get?_toJson]
    exact Json.members?_ofDict _
  rw [Dict.get?_ofList_eq_some_iff distinct, List.mem_map]
  constructor
  · rintro ⟨⟨record, position⟩, member, same⟩
    cases same
    exact ⟨position, record, List.mem_zipIdx_iff_getElem?.mp member, rfl, rfl⟩
  · rintro ⟨position, record, found, rfl, rfl⟩
    exact ⟨(record, position), List.mem_zipIdx_iff_getElem?.mpr found, rfl⟩

theorem exists_named (listing : Listing) (distinct : listing.numbering.Nodup) :
    ∃ table, (listing.toJson.get? "idToBlock").bind Json.members? = some table ∧
      listing.Named table := by
  let entries := listing.records.map fun record => (record.id, record.toJson)
  have keys : entries.map Prod.fst = listing.numbering := by
    simp [entries, numbering, Function.comp_def]
  refine ⟨Dict.ofList entries, ?_, fun key entry => ?_⟩
  · rw [get?_toJson]
    exact Json.members?_ofDict _
  rw [Dict.get?_ofList_eq_some_iff (keys ▸ distinct), List.mem_map]
  constructor
  · rintro ⟨record, member, same⟩
    cases same
    exact ⟨record, member, rfl, rfl⟩
  · rintro ⟨record, member, rfl, rfl⟩
    exact ⟨record, member, rfl⟩

end Listing

namespace Outline

variable {arena : Arena}

theorem record?_eq (editor : Editor) : record? editor = fun entry => entry.shown?.map fun shown =>
    ⟨shown.1, shown.2, geometry editor shown.1 shown.2⟩ := by
  funext entry
  cases entry <;> rfl

/-- The records are those of the shown blocks. -/
theorem ids_of_records (editor : Editor) (entries : List Entry) :
    (entries.filterMap (record? editor)).map Record.id =
      (entries.filterMap Entry.shown?).map Prod.fst := by
  rw [record?_eq, List.map_filterMap, List.map_filterMap]
  simp only [Option.map_map, Function.comp_def]

theorem targets_scripts (scripts : List String) :
    (scripts.map Task.script).flatMap Task.targets = scripts := by
  induction scripts with
  | nil => rfl
  | cons root rest ih =>
    rw [List.map_cons, List.flatMap_cons, ih]
    rfl

/-- Some shown block refers to a missing block, or is named twice. -/
def Faulty (arena : Arena) : Prop :=
  (∃ owner id, Reached arena visible arena.scripts owner ∧ id ∈ linksAt arena visible owner ∧
    arena.get? id = none) ∨
  ∃ id, Reached arena visible arena.scripts id ∧ NamedTwice arena visible arena.scripts id

theorem faulty_of_blocked (stored : ∀ id ∈ arena.scripts, ∃ block, arena.get? id = some block)
    (blocked : Blocked arena visible arena.scripts []) : Faulty arena := by
  rcases blocked.dangling_or_namedTwice with ⟨id, missing, named⟩ | twice
  · rcases named with root | ⟨owner, reached, link⟩
    · obtain ⟨block, found⟩ := stored id root
      rw [missing] at found
      cases found
    · exact .inl ⟨owner, id, reached, link, missing⟩
  · exact .inr twice

theorem not_faulty_of_explores {order : List String}
    (explores : Explores arena visible arena.scripts [] order) : ¬Faulty arena := by
  rintro (⟨owner, id, reached, link, missing⟩ | ⟨id, reached, twice⟩)
  · exact explores.not_dangling ⟨id, missing, .inr ⟨owner, reached, link⟩⟩
  · exact explores.not_namedTwice reached.shown twice

end Outline

namespace Project

/-- The listing that an outline makes. -/
theorem listing_of_ofArena {project : Project} {index : Nat} {target : Target} {entries : List Entry}
    (required : project.requireEditing = .ok (index, target))
    (outlined : Outline.ofArena target.blocks = .ok entries) (editor : Editor)
    (options : ListingOptions) :
    project.listing editor options = .ok {
      lines := entries.map (Outline.line ⟨project, index, editor⟩ options)
      records := entries.filterMap (Outline.record? editor)
      targetName := target.name } := by
  simp only [listing, required, outlined, Damage.orFault, bind, Except.bind, pure, Except.pure]

/-- The outline decides whether the editing target can be listed. -/
theorem listing_eq {project : Project} {index : Nat} {target : Target}
    (required : project.requireEditing = .ok (index, target)) (editor : Editor)
    (options : ListingOptions) :
    (∀ damage, Outline.ofArena target.blocks = .error damage →
      project.listing editor options = .error (.damaged damage)) ∧
    ∀ entries, Outline.ofArena target.blocks = .ok entries →
      ∃ listing, project.listing editor options = .ok listing ∧
        listing.records = entries.filterMap (Outline.record? editor) := by
  constructor
  · intro damage failed
    simp only [listing, required, failed, Damage.orFault, bind, Except.bind]
  · intro entries walked
    exact ⟨_, listing_of_ofArena required walked editor options, rfl⟩

theorem listing_cases {project : Project} {index : Nat} {target : Target}
    (required : project.requireEditing = .ok (index, target)) (tidy : target.blocks.Tidy)
    (editor : Editor) (options : ListingOptions) :
    (Outline.Faulty target.blocks ∧
      ∃ damage, project.listing editor options = .error (.damaged damage)) ∨
    ¬Outline.Faulty target.blocks ∧
      ∃ listing, project.listing editor options = .ok listing ∧ listing.Shows target.blocks := by
  obtain ⟨fails, lists⟩ := listing_eq required editor options
  have distinct : Outline.Distinct target.blocks := fun id block found =>
    (tidy.blocks id block found).distinctInputs
  have walked := Outline.walk_cases distinct (target.blocks.scripts.map .script) []
  rw [Outline.targets_scripts] at walked
  rcases walked with ⟨entries, ended, explores, stored⟩ | ⟨⟨damage, failed⟩, blocked⟩
  · obtain ⟨listing, listed, records⟩ := lists entries ended
    have numbering : listing.numbering = (entries.filterMap Entry.shown?).map Prod.fst := by
      rw [Listing.numbering, records, Outline.ids_of_records]
    rw [← numbering] at explores
    refine .inr ⟨Outline.not_faulty_of_explores explores, listing, listed, ?_⟩
    have distinct := explores.nodup.1
    refine ⟨explores.preorder, distinct, fun _ => explores.mem_iff_reached, ?_,
      listing.exists_numbered, listing.exists_named distinct⟩
    intro record member
    rw [records, Outline.record?_eq] at member
    obtain ⟨entry, inside, found⟩ := List.mem_filterMap.mp member
    obtain ⟨shown, header, rfl⟩ := Option.map_eq_some_iff.mp found
    exact stored shown (List.mem_filterMap.mpr ⟨entry, inside, header⟩)
  · refine .inl ⟨Outline.faulty_of_blocked ?_ blocked, damage, fails damage failed⟩
    intro id member
    obtain ⟨block, found, -⟩ := (tidy.mem_scripts id).mp member
    exact ⟨block, found⟩

/-- Any target of a project that was read can be listed, unless its graph is faulty. -/
theorem listing_of_readProject {value : Json} {project : Project}
    (read : Document.readProject value = .ok project) {index : Nat} {target : Target}
    (inRange : project.targets[index]? = some target) (editor : Editor) (options : ListingOptions) :
    let listed := ({ project with editing := some index } : Project).listing editor options
    ((∃ fault, listed = .error fault) ↔ Outline.Faulty target.blocks) ∧
      (∀ fault, listed = .error fault → fault.kind = .executionError) ∧
      (¬Outline.Faulty target.blocks →
        ∃ listing, listed = .ok listing ∧ listing.Shows target.blocks) := by
  have required : ({ project with editing := some index } : Project).requireEditing =
      .ok (index, target) := by
    simp [requireEditing, inRange]
  have tidy := ((Document.storable_readProject read).targets.get inRange).tidy
  intro listed
  rcases listing_cases required tidy editor options with
    ⟨faulty, damage, failed⟩ | ⟨sound, listing, succeeded, shows⟩
  · refine ⟨⟨fun _ => faulty, fun _ => ⟨_, failed⟩⟩, ?_, fun sound => absurd faulty sound⟩
    intro fault same
    obtain rfl := Except.error.inj (failed.symm.trans same)
    rfl
  · have noFault : ∀ fault, listed ≠ .error fault := by
      intro fault same
      cases succeeded.symm.trans same
    refine ⟨⟨?_, fun faulty => absurd faulty sound⟩, ?_, fun _ => ⟨listing, succeeded, shows⟩⟩
    · rintro ⟨fault, same⟩
      exact absurd same (noFault fault)
    · intro fault same
      exact absurd same (noFault fault)

/-- A document with one block that stands below itself. -/
def loopDocument : Json :=
  .ofMembers [("targets", .array [.ofMembers
    [("name", .text "Cat"), ("isStage", .bool false),
      ("blocks", .ofMembers [("a", .ofMembers
        [("opcode", .text "motion_ifonedgebounce"), ("next", .text "a"),
          ("topLevel", .bool true)])])]])]

def loopTarget : Target where
  name := "Cat"
  isStage := false
  blocks :=
    { blocks := .ofList [("a",
        { opcode := "motion_ifonedgebounce", next := some "a", topLevel := true })]
      scripts := ["a"] }
  rest := .ofList [("name", .text "Cat"), ("isStage", .bool false)]

theorem listing_of_readProject_loop :
    Document.readProject loopDocument = .ok (.ofTargets [loopTarget] ∅) ∧
      ∃ fault, (Project.ofTargets [loopTarget] ∅).listing Editor.headless {} = .error fault ∧
        fault.kind = .executionError := by
  have read : Document.readProject loopDocument = .ok (.ofTargets [loopTarget] ∅) := by
    decide +kernel
  have inRange : (Project.ofTargets [loopTarget] ∅).targets[0]? = some loopTarget := rfl
  have shown : Shown loopTarget.blocks Outline.visible "a" := ⟨_, ["a"], rfl, by decide⟩
  have reached : Reached loopTarget.blocks Outline.visible loopTarget.blocks.scripts "a" :=
    .root (by decide) shown
  have faulty : Outline.Faulty loopTarget.blocks := by
    refine .inr ⟨"a", reached, ["a"], by decide, ?_, by decide⟩
    intro owner member
    exact List.mem_singleton.mp member ▸ reached
  have listed := listing_of_readProject read inRange Editor.headless {}
  obtain ⟨fault, failed⟩ := listed.1.mpr faulty
  exact ⟨read, fault, failed, listed.2.1 fault failed⟩

end Project

end BlockGraph
