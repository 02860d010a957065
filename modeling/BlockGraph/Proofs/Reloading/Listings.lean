import BlockGraph.Proofs.Outline.Sketch
import BlockGraph.Proofs.Reloading.Projects

/-!
What a project shows after it was written and read again. The order of scripts and of inputs is not
stored: scripts are ordered by their places, and inputs by their names. The text stays the same when
the target that is edited is settled, that is, in the order that a document gives it.
-/

set_option autoImplicit false

namespace BlockGraph

/-- A block at the place where it is written. -/
def Block.placed (block : Block) : Block :=
  { block with x := block.coordinate block.x, y := block.coordinate block.y }

/-- Place of a script in reading order once its block is written. -/
def Arena.savedKey (arena : Arena) (id : String) : Option (Int × Int × String) :=
  (arena.get? id).map fun block => Document.scriptKey id block.placed

/-- Scripts are listed by their places and inputs by their names, and no shadow is kept back from an
input that holds nothing else. -/
structure Arena.Settled (arena : Arena) : Prop where
  scripts : arena.scripts.Pairwise fun first second =>
    Arena.keyLe Document.scriptLe (arena.savedKey first) (arena.savedKey second)
  inputs : ∀ id block, arena.get? id = some block →
    (block.inputs.map Input.name).Pairwise (· < ·)
  shadows : ∀ id block, arena.get? id = some block →
    ∀ input ∈ block.inputs, input.block = none → input.shadow = none

/-- Whether an arena is settled is decided entry by entry. -/
instance (arena : Arena) : Decidable arena.Settled :=
  decidable_of_iff
    ((arena.scripts.Pairwise fun first second =>
      Arena.keyLe Document.scriptLe (arena.savedKey first) (arena.savedKey second)) ∧
      ∀ entry ∈ arena.blocks.entries, (entry.2.inputs.map Input.name).Pairwise (· < ·) ∧
        ∀ input ∈ entry.2.inputs, input.block = none → input.shadow = none)
    ⟨fun holds => ⟨holds.1,
        fun id block found => (holds.2 _ ((arena.blocks.get?_eq_some_iff id block).mp found)).1,
        fun id block found => (holds.2 _ ((arena.blocks.get?_eq_some_iff id block).mp found)).2⟩,
      fun settled => ⟨settled.scripts, fun entry member =>
        have found := (arena.blocks.get?_eq_some_iff entry.1 entry.2).mpr member
        ⟨settled.inputs _ _ found, settled.shadows _ _ found⟩⟩⟩

namespace Document

theorem scriptLe_iff {first second : Int × Int × String} : scriptLe first second = true ↔
    first.1 < second.1 ∨ first.1 = second.1 ∧
      (first.2.1 < second.2.1 ∨ first.2.1 = second.2.1 ∧ first.2.2 ≤ second.2.2) := by
  simp [scriptLe]

theorem scriptLe_trans {first second third : Int × Int × String}
    (below : scriptLe first second = true) (above : scriptLe second third = true) :
    scriptLe first third = true := by
  rw [scriptLe_iff] at *
  rcases below with higher | ⟨level, left | ⟨same, id⟩⟩ <;>
    rcases above with higher' | ⟨level', left' | ⟨same', id'⟩⟩
  case inr.inr.inr.inr =>
    exact .inr ⟨level.trans level', .inr ⟨same.trans same', String.le_trans id id'⟩⟩
  all_goals omega

theorem scriptLe_total (first second : Int × Int × String) :
    (scriptLe first second || scriptLe second first) = true := by
  rw [Bool.or_eq_true, scriptLe_iff, scriptLe_iff]
  rcases String.le_total first.2.2 second.2.2 with le | le
  · simp only [le, and_true]
    omega
  · simp only [le, and_true]
    omega

theorem id_eq_of_scriptLe {first second : Int × Int × String}
    (below : scriptLe first second = true) (above : scriptLe second first = true) :
    first.2.2 = second.2.2 := by
  rw [scriptLe_iff] at *
  rcases below with higher | ⟨level, left | ⟨same, id⟩⟩ <;>
    rcases above with higher' | ⟨level', left' | ⟨same', id'⟩⟩
  case inr.inr.inr.inr => exact String.le_antisymm id id'
  all_goals omega

theorem keyLe_scriptLe_trans {first second third : Option (Int × Int × String)}
    (below : Arena.keyLe scriptLe first second = true)
    (above : Arena.keyLe scriptLe second third = true) :
    Arena.keyLe scriptLe first third = true := by
  cases first <;> cases second <;> cases third <;> simp only [Arena.keyLe] at * <;>
    first | contradiction | exact scriptLe_trans below above

theorem keyLe_scriptLe_total (first second : Option (Int × Int × String)) :
    (Arena.keyLe scriptLe first second || Arena.keyLe scriptLe second first) = true := by
  cases first <;> cases second <;> simp only [Arena.keyLe, Bool.or_true, Bool.true_or]
  exact scriptLe_total _ _

/-- Scripts that are read are in reading order. -/
theorem sorted_readBlocks {blocks : Dict Json} {arena : Arena}
    (read : readBlocks blocks = .ok arena) : arena.scripts.Pairwise fun first second =>
      Arena.keyLe scriptLe ((arena.get? first).map (scriptKey first))
        ((arena.get? second).map (scriptKey second)) := by
  obtain ⟨written, standing, complete, -, -, -, rfl⟩ := readBlocks_eq_ok.mp read
  let keyOf (id : String) := (complete.get? id).map (scriptKey id)
  let le (first second : String) := Arena.keyLe scriptLe (keyOf first) (keyOf second)
  have trans : ∀ first second third, le first second → le second third → le first third :=
    fun _ _ _ => keyLe_scriptLe_trans
  have total : ∀ first second, le first second || le second first :=
    fun _ _ => keyLe_scriptLe_total _ _
  exact List.pairwise_mergeSort trans total complete.scripts

/-- Blocks that are written in full, with scripts in reading order, are stored as they come. -/
theorem readBlocks_of_sorted (blocks : Dict Json) (arena : Arena)
    (written : blocks.entries.foldlM storeBlock {} = .ok arena)
    (noLiteral : blocks.entries.foldlM storeLiteral arena = .ok arena)
    (noPending : (blocks.entries.flatMap pendingInputs).isEmpty = true)
    (sorted : arena.scripts.Pairwise fun first second =>
      Arena.keyLe scriptLe ((arena.get? first).map (scriptKey first))
        ((arena.get? second).map (scriptKey second))) : readBlocks blocks = .ok arena := by
  refine readBlocks_eq_ok.mpr ⟨arena, arena, arena, written, noLiteral, ?_, ?_⟩
  · rw [List.isEmpty_iff.mp noPending]
    rfl
  · rw [Arena.sortScripts, List.mergeSort_of_pairwise sorted]

theorem sorted_readTarget {value : Json} {target : Target} (read : readTarget value = .ok target) :
    target.blocks.scripts.Pairwise fun first second =>
      Arena.keyLe scriptLe ((target.blocks.get? first).map (scriptKey first))
        ((target.blocks.get? second).map (scriptKey second)) := by
  obtain ⟨name, isStage, blocks, arena, -, -, -, stored, rfl⟩ := readTarget_eq_ok.mp read
  exact sorted_readBlocks stored

/-- Every target of a project that was read was read itself. -/
theorem exists_readTarget {value : Json} {project : Project}
    (read : readProject value = .ok project) {index : Nat} {target : Target}
    (found : project.targets[index]? = some target) :
    ∃ written, readTarget written = .ok target := by
  obtain ⟨written, targets, -, each, rfl⟩ := readProject_eq_ok.mp read
  have found : targets[index]? = some target := found
  rcases Outcomes.getElem?_of_forall₂ each index with
    ⟨-, missing⟩ | ⟨document, result, -, lookup, ended⟩
  · rw [found] at missing
    cases missing
  · rw [found] at lookup
    cases lookup
    exact ⟨document, ended⟩

end Document

namespace Arena.Reloads

variable {arena again : Arena}

theorem mem_scripts_iff (reloads : arena.Reloads again) (tidy : arena.Tidy) (read : again.Tidy)
    (id : String) : id ∈ again.scripts ↔ id ∈ arena.scripts := by
  rw [read.mem_scripts, tidy.mem_scripts]
  constructor
  · rintro ⟨other, found, top⟩
    obtain ⟨block, before, same⟩ := reloads.exists_of_get? found
    exact ⟨block, before, same.topLevel ▸ top⟩
  · rintro ⟨block, found, top⟩
    obtain ⟨other, lookup, same⟩ := reloads.blocks id block found
    exact ⟨other, lookup, same.topLevel.trans top⟩

/-- A block comes back at the place where it was written. -/
theorem savedKey_eq (reloads : arena.Reloads again) (id : String) :
    (again.get? id).map (Document.scriptKey id) = arena.savedKey id := by
  rw [savedKey]
  cases found : arena.get? id with
  | none =>
    rw [reloads.get?_eq_none found]
    rfl
  | some block =>
    obtain ⟨other, lookup, same⟩ := reloads.blocks id block found
    rw [lookup]
    simp only [Option.map_some, Document.scriptKey, Block.placed, same.x, same.y]

/-- Scripts in reading order come back in that order. -/
theorem scripts_eq (reloads : arena.Reloads again) (tidy : arena.Tidy) (read : again.Tidy)
    (sorted : again.scripts.Pairwise fun first second =>
      keyLe Document.scriptLe ((again.get? first).map (Document.scriptKey first))
        ((again.get? second).map (Document.scriptKey second)))
    (settled : arena.Settled) : again.scripts = arena.scripts := by
  simp only [reloads.savedKey_eq] at sorted
  have perm : again.scripts.Perm arena.scripts :=
    (List.perm_ext_iff_of_nodup read.distinctScripts tidy.distinctScripts).mpr
      (reloads.mem_scripts_iff tidy read)
  refine List.Perm.eq_of_pairwise ?_ sorted settled.scripts perm
  -- Keys end with the id, so two scripts with equal keys are one.
  intro first second listed listed' below above
  obtain ⟨block, found, -⟩ := (read.mem_scripts first).mp listed
  obtain ⟨other, found', -⟩ := (tidy.mem_scripts second).mp listed'
  obtain ⟨old, before, -⟩ := reloads.exists_of_get? found
  simp only [savedKey, before, found', Option.map_some, keyLe] at below above
  exact Document.id_eq_of_scriptLe below above

end Arena.Reloads

/-- Inputs in the order of their names come back as they were. -/
theorem Block.Reloads.sketch_eq {block again : Block} (reloads : block.Reloads again)
    (sorted : (block.inputs.map Input.name).Pairwise (· < ·))
    (shadows : ∀ input ∈ block.inputs, input.block = none → input.shadow = none) :
    again.sketch = block.sketch := by
  have reloaded : block.inputs.map Input.reloaded = block.inputs := by
    conv_rhs => rw [← List.map_id block.inputs]
    apply List.map_congr_left
    intro input member
    obtain ⟨name, plug, shadow⟩ := input
    cases plug with
    | some id => rfl
    | none =>
      obtain rfl : shadow = none := shadows _ member rfl
      rfl
  have inputs : again.inputs = block.inputs := by
    have perm := reloads.inputs
    rw [reloaded] at perm
    refine List.Perm.eq_of_pairwise ?_ (List.pairwise_map.mp reloads.sorted)
      (List.pairwise_map.mp sorted) perm
    intro first second _ _ less more
    exact absurd (String.lt_trans less more) (String.lt_irrefl _)
  simp only [sketch, inputs, reloads.opcode, reloads.fields, reloads.branches, reloads.next]

theorem Arena.Reloads.sketch_eq {arena again : Arena} (reloads : arena.Reloads again)
    (settled : arena.Settled) (scripts : again.scripts = arena.scripts) :
    again.sketch = arena.sketch := by
  have blocks : again.sketch.blocks = arena.sketch.blocks := by
    apply Dict.ext_get?
    intro id
    change again.sketch.get? id = arena.sketch.get? id
    rw [get?_sketch, get?_sketch]
    cases found : arena.get? id with
    | none => rw [reloads.get?_eq_none found]
    | some block =>
      obtain ⟨other, lookup, same⟩ := reloads.blocks id block found
      rw [lookup, Option.map_some, Option.map_some,
        same.sketch_eq (settled.inputs id block found) (settled.shadows id block found)]
  rw [sketch, sketch, scripts]
  exact congrArg (fun blocks => ({ blocks := blocks, scripts := arena.scripts } : Arena)) blocks

theorem Target.Reloads.sketch_eq {target again : Target} (reloads : target.Reloads again)
    (storable : target.Storable) {value : Json} (read : Document.readTarget value = .ok again)
    (settled : target.blocks.Settled) : again.blocks.sketch = target.blocks.sketch :=
  have readTidy := (Document.storable_readTarget read).tidy
  have scripts := reloads.blocks.scripts_eq storable.tidy readTidy
    (Document.sorted_readTarget read) settled
  reloads.blocks.sketch_eq settled scripts

namespace Project

/-- A project shows the same text after it was read from its document, if what is edited is
settled. -/
theorem pseudocode_reloads {project again : Project} (storable : project.Storable)
    (read : Document.readProject (Document.writeProject project) = .ok again)
    (reloads : List.Forall₂ Target.Reloads project.targets again.targets)
    (settled : ∀ target, project.editingTarget? = some target → target.blocks.Settled)
    (editor : Editor) :
    (({ again with editing := project.editing } : Project).listing editor
        { withIds := false, withChoices := false }).map Listing.pseudocode =
      (project.listing editor { withIds := false, withChoices := false }).map
        Listing.pseudocode := by
  cases edited : project.editing with
  | none => simp only [listing, requireEditing, edited, bind, Except.bind]
  | some index =>
    rcases Outcomes.getElem?_of_forall₂ reloads index with
      ⟨missing, missing'⟩ | ⟨target, other, found, found', same⟩
    · simp only [listing, requireEditing, edited, missing, missing', bind, Except.bind]
    · have required : project.requireEditing = .ok (index, target) := by
        simp only [requireEditing, edited, found]
      have required' : ({ again with editing := some index } : Project).requireEditing =
          .ok (index, other) := by
        simp only [requireEditing, found']
      obtain ⟨value, readOther⟩ := Document.exists_readTarget read found'
      have isSettled : target.blocks.Settled :=
        settled target (by rw [editingTarget?, edited]; exact found)
      rw [pseudocode_sketch required, pseudocode_sketch required',
        same.sketch_eq (storable.targets.get found) readOther isSettled]

end Project

namespace Session

/-- After any requests, a project shows the same text when it is read again from its document and
goes on with the same target, if that target is settled. -/
theorem pseudocode_of_reload {value : Json} {session : Session}
    (read : Document.readProject value = .ok session.project) (requests : List Request)
    (settled : ∀ target, (session.executeAll requests).2.project.editingTarget? = some target →
      target.blocks.Settled) (editor : Editor) :
    let project := (session.executeAll requests).2.project
    let options : ListingOptions := { withIds := false, withChoices := false }
    ∃ again, Document.readProject (Document.writeProject project) = .ok again ∧
      (({ again with editing := project.editing } : Project).listing editor options).map
          Listing.pseudocode =
        (project.listing editor options).map Listing.pseudocode := by
  have storable := executeAll_storable (Document.storable_readProject read) requests
  obtain ⟨again, reloaded, reloads, -⟩ := Document.readProject_writeProject storable
  exact ⟨again, reloaded, Project.pseudocode_reloads storable reloaded reloads settled editor⟩

/-- Two scripts, of which the first has two blocks. -/
def twoScriptsBlocks : List (String × Json) :=
  let top (opcode : String) (y : Nat) (next : Option String) := Json.ofMembers
    [("opcode", .text opcode), ("next", .ofText? next), ("topLevel", .bool true),
      ("x", .ofNat 0), ("y", .ofNat y)]
  [("a", top "event_whenflagclicked" 0 (some "b")),
    ("b", .ofMembers [("opcode", .text "motion_ifonedgebounce"), ("parent", .text "a")]),
    ("c", top "looks_show" 100 none)]

def twoScriptsDocument : Json :=
  .ofMembers [("targets", .array [.ofMembers
    [("name", .text "Cat"), ("isStage", .bool false), ("blocks", .ofMembers twoScriptsBlocks)]])]

def topBlock (opcode : String) (y : Int) (next : Option String) : Block where
  opcode := opcode
  next := next
  topLevel := true
  x := some Binary64.zero
  y := some (Binary64.ofInt y)

/-- One sprite with the given blocks. -/
def spriteProject (blocks : List (String × Block)) (scripts : List String) : Project :=
  .ofTargets [{
    name := "Cat"
    isStage := false
    blocks := { blocks := .ofList blocks, scripts := scripts }
    rest := .ofList [("name", .text "Cat"), ("isStage", .bool false)] }] ∅

def twoScripts : Session where
  project := spriteProject
    [("a", topBlock "event_whenflagclicked" 0 (some "b")),
      ("b", { opcode := "motion_ifonedgebounce", parent := some "a" }),
      ("c", topBlock "looks_show" 100 none)] ["a", "c"]

theorem readProject_twoScripts :
    Document.readProject twoScriptsDocument = .ok twoScripts.project := by
  have stored : Document.readBlocks _ = .ok _ := Document.readBlocks_of_sorted
    (.ofList twoScriptsBlocks)
    { blocks := .ofList
        [("a", topBlock "event_whenflagclicked" 0 (some "b")),
          ("b", { opcode := "motion_ifonedgebounce", parent := some "a" }),
          ("c", topBlock "looks_show" 100 none)]
      scripts := ["a", "c"] }
    (by decide +kernel) (by decide +kernel) (by decide +kernel) (by decide +kernel)
  refine Document.readProject_eq_ok.mpr ⟨_, _, rfl, .cons (Document.readTarget_eq_ok.mpr
    ⟨_, _, _, _, rfl, rfl, .inr rfl, stored, rfl⟩) .nil, ?_⟩
  decide +kernel

def detachFollower : Request :=
  ⟨"detach_blocks", .ofMembers [("blockId", .text "b")]⟩

/-- A block that is detached goes below all scripts, and stays there. -/
theorem pseudocode_of_reload_detached :
    Document.readProject twoScriptsDocument = .ok twoScripts.project ∧
      (twoScripts.executeAll [detachFollower]).2.project.editingTarget?.map
        (fun target => target.blocks.scripts) = some ["a", "c", "b"] ∧
      ∃ again, Document.readProject (Document.writeProject
          (twoScripts.executeAll [detachFollower]).2.project) = .ok again ∧
        (({ again with
            editing := (twoScripts.executeAll [detachFollower]).2.project.editing } : Project).listing
              Editor.headless { withIds := false, withChoices := false }).map Listing.pseudocode =
          ((twoScripts.executeAll [detachFollower]).2.project.listing
            Editor.headless { withIds := false, withChoices := false }).map Listing.pseudocode := by
  have settled : ((twoScripts.executeAll [detachFollower]).2.project.editingTarget?.map
      fun target => decide target.blocks.Settled) = some true := by decide +kernel
  refine ⟨readProject_twoScripts, by decide +kernel, ?_⟩
  refine pseudocode_of_reload readProject_twoScripts [detachFollower] ?_ Editor.headless
  intro target found
  rw [found] at settled
  simpa using settled

def deleteHat : Request :=
  ⟨"delete_block", .ofMembers [("blockId", .text "a")]⟩

/-- What stood below a deleted block takes its place on the workspace, but is listed last until the
document is read again. -/
theorem reload_moves_follower :
    Document.readProject twoScriptsDocument = .ok twoScripts.project ∧
      ∃ again, Document.readProject (Document.writeProject
          (twoScripts.executeAll [deleteHat]).2.project) = .ok again ∧
        ((twoScripts.executeAll [deleteHat]).2.project.listing Editor.headless
            { withIds := false, withChoices := false }).map Listing.pseudocode =
          .ok "#1 looks_show [top]\n\n#2 motion_ifonedgebounce [top]" ∧
        (({ again with
            editing := (twoScripts.executeAll [deleteHat]).2.project.editing } : Project).listing
              Editor.headless { withIds := false, withChoices := false }).map Listing.pseudocode =
          .ok "#1 motion_ifonedgebounce [top]\n\n#2 looks_show [top]" := by
  have reached : (twoScripts.executeAll [deleteHat]).2.project = spriteProject
      [("b", topBlock "motion_ifonedgebounce" 0 none), ("c", topBlock "looks_show" 100 none)]
      ["c", "b"] := by decide +kernel
  have stored : Document.readBlocks _ = .ok _ := Document.readBlocks_of_sorted
    ((Dict.ofList
      [("b", topBlock "motion_ifonedgebounce" 0 none),
        ("c", topBlock "looks_show" 100 none)]).map fun _ block => Document.writeBlock block)
    { blocks := .ofList
        [("b", topBlock "motion_ifonedgebounce" 0 none), ("c", topBlock "looks_show" 100 none)]
      scripts := ["b", "c"] }
    (by decide +kernel) (by decide +kernel) (by decide +kernel) (by decide +kernel)
  rw [reached]
  refine ⟨readProject_twoScripts, _, Document.readProject_eq_ok.mpr
    ⟨_, _, rfl, .cons (Document.readTarget_eq_ok.mpr
      ⟨_, _, _, _, rfl, rfl, .inr rfl, stored, rfl⟩) .nil, rfl⟩, ?_, ?_⟩
  · refine (Project.pseudocode_of_walkWithin rfl Editor.headless 4
      ["#1 looks_show [top]", "", "#2 motion_ifonedgebounce [top]"] ?_).trans ?_ <;> decide +kernel
  · refine (Project.pseudocode_of_walkWithin rfl Editor.headless 4
      ["#1 motion_ifonedgebounce [top]", "", "#2 looks_show [top]"] ?_).trans ?_ <;> decide +kernel

end Session

end BlockGraph
