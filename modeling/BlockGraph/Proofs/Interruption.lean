import BlockGraph.Document.Reader
import BlockGraph.Proofs.Project
import BlockGraph.Proofs.Steps
import BlockGraph.Proofs.WellLinked

/-!
Edits that fail on damaged links. Taking a block from its parent is the last step that detaching it
could fail in, so it is done as a whole or not at all. Connecting and deleting blocks go on to follow
links that were not looked at before: to the block that leaves a place, to the block below a deleted
one, and through the contents of a deleted one. Where such a link leads nowhere the edit stops
half-way; in all other cases a failure changes nothing.
-/

set_option autoImplicit false

namespace BlockGraph

open Revision

/-- The block that has to leave a place when another one goes there. -/
def Placement.displaced? (owner : Block) : Placement → Option String
  | .stackAfter => owner.next
  | .statementInto input => (Branch.ofName? input).bind owner.branch
  | .valueInto _ => none

/-- The sequence and the branches of a block when it may have lost one of its children. -/
structure Block.Loses (block : Block) (id : String) (changed : Block) : Prop where
  kept : id ∉ block.childIds → changed.next = block.next
  below : ∀ lower, changed.next = some lower → block.next = some lower
  heads : ∀ branch lower, changed.branch branch = some lower → block.branch branch = some lower

namespace Block

variable {block changed : Block} {id : String}

theorem Loses.of_same (below : changed.next = block.next)
    (heads : changed.branches = block.branches) : block.Loses id changed := by
  refine ⟨fun _ => below, fun lower head => below ▸ head, fun branch lower head => ?_⟩
  rw [Block.branch, heads] at head
  exact head

theorem Loses.trans {last : Block} (loses : block.Loses id changed) (below : last.next = changed.next)
    (heads : last.branches = changed.branches) : block.Loses id last := by
  refine ⟨fun absent => below.trans (loses.kept absent), fun lower head => ?_,
    fun branch lower head => ?_⟩
  · exact loses.below lower (below ▸ head)
  · rw [Block.branch, heads] at head
    exact loses.heads branch lower head

/-- A slot that let go of a child named it before. -/
theorem mem_childIds_of_replaceChild? {new : Option String}
    (replaced : block.replaceChild? id new = some changed) : id ∈ block.childIds := by
  rcases replaceChild?_cases replaced with ⟨below, -⟩ | ⟨branch, head, -⟩ | ⟨slot, member, plugged, -⟩
  · exact mem_childIds_of_next below
  · exact mem_childIds_of_branch head
  · exact mem_childIds_of_block member plugged

theorem loses_of_replaceChild? (replaced : block.replaceChild? id none = some changed) :
    block.Loses id changed := by
  have owned := mem_childIds_of_replaceChild? replaced
  refine ⟨fun absent => absurd owned absent, ?_, ?_⟩
  · intro lower below
    rcases replaceChild?_cases replaced with ⟨-, rfl⟩ | ⟨branch, -, rfl⟩ | ⟨slot, -, -, -, rfl⟩
    · cases below
    · exact below
    · exact below
  · intro branch lower head
    rcases replaceChild?_cases replaced with ⟨-, rfl⟩ | ⟨other, -, rfl⟩ | ⟨slot, -, -, -, rfl⟩
    · exact head
    · rw [Block.branch, setBranch, Branches.get_set] at head
      split at head
      · cases head
      · exact head
    · exact head

end Block

namespace Arena

variable {arena state : Arena} {id source target : String} {block : Block}

/-- The place on the target names a block that is missing. -/
def Vacant (arena : Arena) (target : String) (placement : Placement) : Prop :=
  ∃ owner lower, arena.get? target = some owner ∧ placement.displaced? owner = some lower ∧
    arena.get? lower = none

/-- A state in which a block may have been taken from its parent. -/
structure Released (arena : Arena) (id : String) (state : Arena) : Prop where
  blocks : ∀ other block, arena.get? other = some block →
    ∃ changed, state.get? other = some changed ∧ block.Loses id changed
  missing : ∀ other, arena.get? other = none → state.get? other = none

namespace Released

theorem refl (arena : Arena) (id : String) : Released arena id arena :=
  ⟨fun _ block found => ⟨block, found, .of_same rfl rfl⟩, fun _ => fun missing => missing⟩

/-- A change that leaves the sequence and the branches of a block alone. -/
theorem modifyBlock (released : Released arena id state) (place : String) {change : Block → Block}
    (same : ∀ block, (change block).next = block.next ∧ (change block).branches = block.branches) :
    Released arena id (state.modifyBlock place change) := by
  constructor
  · intro other block found
    obtain ⟨changed, lookup, loses⟩ := released.blocks other block found
    rw [get?_modifyBlock, lookup]
    split
    · exact ⟨change changed, rfl, loses.trans (same changed).1 (same changed).2⟩
    · exact ⟨changed, rfl, loses⟩
  · intro other absent
    rw [get?_modifyBlock, released.missing other absent]
    split <;> rfl

theorem setParent (released : Released arena id state) (place : String) (parent : Option String) :
    Released arena id (state.modifyBlock place ({ · with parent := parent })) :=
  released.modifyBlock place fun _ => ⟨rfl, rfl⟩

theorem setTopLevel (released : Released arena id state) (place : String) (topLevel : Bool) :
    Released arena id (state.setTopLevel place topLevel) := by
  cases topLevel with
  | false =>
    have marked : Released arena id (state.modifyBlock place
        ({ · with topLevel := false, x := none, y := none })) :=
      released.modifyBlock place fun _ => ⟨rfl, rfl⟩
    exact ⟨marked.blocks, marked.missing⟩
  | true =>
    have marked : Released arena id (state.modifyBlock place
        ({ · with topLevel := true, parent := none })) :=
      released.modifyBlock place fun _ => ⟨rfl, rfl⟩
    exact ⟨marked.blocks, marked.missing⟩

end Released

theorem released_replace {parent : String} {owner changed : Block}
    (found : arena.get? parent = some owner) (replaced : owner.replaceChild? id none = some changed) :
    Released arena id (arena.modifyBlock parent fun _ => changed) := by
  constructor
  · intro other kept stored
    rw [get?_modifyBlock, stored]
    split
    · rename_i same
      subst same
      cases Option.some.inj (found.symm.trans stored)
      exact ⟨changed, rfl, Block.loses_of_replaceChild? replaced⟩
    · exact ⟨kept, rfl, .of_same rfl rfl⟩
  · intro other absent
    rw [get?_modifyBlock, absent]
    split <;> rfl

theorem released_unlink (found : arena.get? id = some block) :
    After (unlink id) arena (fun _ => Released arena id) fun _ next => next = arena := by
  refine (loosed_of_unlink found).mono ?_ fun _ _ stopped => stopped.1
  intro _ _ loosed
  cases loosed with
  | top => exact .refl arena id
  | taken _ ownerFound replaced => exact (released_replace ownerFound replaced).setParent id none

/-- A block goes to a place, and what was there goes below its last block. The way down to that block
is the one that the check has walked, so only what leaves the place can be missing. -/
theorem released_reattach {subtree : List String} (released : Released arena source state)
    (walked : arena.subtreeIds source = .ok subtree) (outside : target ∉ subtree)
    (change : Block → Block) (displaced : Option String) :
    After (reattach source displaced) (state.modifyBlock target change) (fun _ _ => True)
      fun _ _ => ∃ lower, displaced = some lower ∧ arena.get? lower = none := by
  cases displaced with
  | none => trivial
  | some lower =>
    have present : ∀ id block, arena.get? id = some block →
        ∃ changed, (state.modifyBlock target change).get? id = some changed := by
      intro id block found
      obtain ⟨changed, lookup, -⟩ := released.blocks id block found
      exact (exists_get?_modifyBlock state target change id).mpr ⟨changed, lookup⟩
    have same : ∀ id ∈ subtree, ∀ block, arena.get? id = some block →
        ∃ changed, (state.modifyBlock target change).get? id = some changed ∧
          changed.next = block.next := by
      intro id met block found
      obtain ⟨changed, lookup, loses⟩ := released.blocks id block found
      have elsewhere : id ≠ target := fun hit => outside (hit ▸ met)
      have absent := not_mem_childrenAt_of_walked walked met
      rw [childrenAt_of_get? found] at absent
      refine ⟨changed, ?_, loses.kept absent⟩
      rw [get?_modifyBlock, if_neg elsewhere, lookup]
    obtain ⟨tail, met, ended⟩ := tailOf_of_walked walked same
    rw [reattach, after_bind, after_get, after_bind, after_follow, ended]
    refine ⟨?_, fun _ failed => by cases failed⟩
    rintro _ ⟨⟩
    obtain ⟨last, stored⟩ := exists_of_walked walked met
    obtain ⟨_, lookup⟩ := present tail last stored
    rw [after_bind, after_update_of_get? lookup, after_update]
    refine ⟨fun _ => trivial, fun missing => ⟨lower, rfl, ?_⟩⟩
    cases found : arena.get? lower with
    | none => rfl
    | some block =>
      obtain ⟨_, lookup⟩ := (exists_get?_modifyBlock (state.modifyBlock target change) tail
        ({ · with next := some lower }) lower).mpr (present lower block found)
      cases lookup.symm.trans missing

theorem released_attach {subtree : List String} {placement : Placement} {owner : Block}
    (released : Released arena source state) (found : arena.get? target = some owner)
    (walked : arena.subtreeIds source = .ok subtree) (outside : target ∉ subtree) :
    After (attach source target placement) state (fun _ _ => True)
      fun _ _ => arena.Vacant target placement := by
  obtain ⟨held, lookup, loses⟩ := released.blocks target owner found
  rw [attach, after_bind, after_stored_of_get? lookup]
  cases placement with
  | stackAfter =>
    rw [after_bind, after_update_of_get? lookup]
    refine (released_reattach released walked outside _ _).mono (fun _ _ => id) ?_
    rintro _ _ ⟨lower, below, missing⟩
    exact ⟨owner, lower, found, loses.below lower below, missing⟩
  | statementInto input =>
    cases named : Branch.ofName? input with
    | none => simp [named]
    | some branch =>
      simp only [named]
      rw [after_bind, after_update_of_get? lookup]
      refine (released_reattach released walked outside _ _).mono (fun _ _ => id) ?_
      rintro _ _ ⟨lower, head, missing⟩
      refine ⟨owner, lower, found, ?_, missing⟩
      rw [Placement.displaced?, named, Option.bind_some]
      exact loses.heads branch lower head
  | valueInto input =>
    rw [after_update_of_get? lookup]
    trivial

/-- A move that fails changes nothing, unless the block that leaves the place is missing. -/
theorem connect_fails (arena : Arena) (source target : String) (placement : Placement) :
    After (connect source target placement) arena (fun _ _ => True)
      fun _ next => next = arena ∨ arena.Vacant target placement := by
  rw [connect, after_bind, after_get, after_bind, after_check]
  refine ⟨fun _ passed => ?_, fun _ _ => .inl rfl⟩
  obtain ⟨moved, owner, subtree, placeable⟩ := placeable_of_check passed
  rw [after_bind]
  refine (released_unlink placeable.foundSource).mono ?_ fun _ _ => .inl
  intro _ state released
  obtain ⟨_, lookup, -⟩ := released.blocks source moved placeable.foundSource
  have loose := released.setTopLevel source false
  obtain ⟨_, stored, -⟩ := loose.blocks source moved placeable.foundSource
  rw [after_bind, after_markTopLevel_of_get? lookup, after_bind, after_update_of_get? stored]
  have adopted := loose.setParent source (some target)
  exact (released_attach adopted placeable.foundTarget placeable.walked placeable.outside).mono
    (fun _ _ => id) fun _ _ => .inr

/-- A block that cannot be taken from its parent stays as it is. -/
theorem detach_fails (arena : Arena) (id : String) :
    After (detach id) arena (fun _ _ => True) fun _ next => next = arena := by
  rw [detach, after_bind, after_get, after_bind, after_check]
  refine ⟨fun block passed => ?_, fun _ _ => rfl⟩
  have found := (movable_eq_ok passed).1
  split
  · simp only [after_bind, after_get]
    refine (released_unlink found).mono ?_ fun _ _ same => same
    intro _ state released
    obtain ⟨_, lookup, -⟩ := released.blocks id block found
    have marked := released.setTopLevel id true
    obtain ⟨_, stored, -⟩ := marked.blocks id block found
    rw [after_markTopLevel_of_get? lookup, after_update_of_get? stored]
    trivial
  · trivial

/-- What a deleted block leaves or takes along is damaged: it stands below a parent and the block
below it is missing, or its contents cannot be walked through. -/
def Ragged (arena : Arena) (id : String) : Prop :=
  ∃ block, arena.get? id = some block ∧
    ((block.parent ≠ none ∧ ∃ lower, block.next = some lower ∧ arena.get? lower = none) ∨
      ∃ damage, (arena.modifyBlock id ({ · with next := none })).subtreeIds id = .error damage)

/-- Some blocks have the slots they had. -/
def Keeps (arena : Arena) (ids : List String) (state : Arena) : Prop :=
  ∀ other ∈ ids, ∀ block, arena.get? other = some block →
    ∃ changed, state.get? other = some changed ∧ changed.inputs = block.inputs ∧
      changed.branches = block.branches ∧ changed.next = block.next

namespace Keeps

variable {ids : List String}

theorem of_get? (same : ∀ other ∈ ids, state.get? other = arena.get? other) :
    Keeps arena ids state := by
  intro other member block found
  exact ⟨block, (same other member).trans found, rfl, rfl, rfl⟩

theorem modifyBlock (keeps : Keeps arena ids state) (place : String) {change : Block → Block}
    (same : ∀ block, (change block).inputs = block.inputs ∧
      (change block).branches = block.branches ∧ (change block).next = block.next) :
    Keeps arena ids (state.modifyBlock place change) := by
  intro other member block found
  obtain ⟨changed, lookup, inputs, branches, next⟩ := keeps other member block found
  rw [get?_modifyBlock, lookup]
  split
  · obtain ⟨sameInputs, sameBranches, sameNext⟩ := same changed
    exact ⟨change changed, rfl, sameInputs.trans inputs, sameBranches.trans branches,
      sameNext.trans next⟩
  · exact ⟨changed, rfl, inputs, branches, next⟩

theorem setTopLevel (keeps : Keeps arena ids state) (place : String) :
    Keeps arena ids (state.setTopLevel place true) := by
  have marked : Keeps arena ids (state.modifyBlock place
      ({ · with topLevel := true, parent := none })) :=
    keeps.modifyBlock place fun _ => ⟨rfl, rfl, rfl⟩
  exact marked

end Keeps

/-- A block is removed with its contents if they have the slots they had, in whatever state the blocks
around them are. -/
theorem ragged_of_unwalked (found : arena.get? id = some block)
    (keeps : ∀ order, (arena.modifyBlock id ({ · with next := none })).subtreeIds id = .ok order →
      Keeps arena order state) {damage : Damage}
    (failed : (state.modifyBlock id ({ · with next := none })).subtreeIds id = .error damage) :
    arena.Ragged id := by
  refine ⟨block, found, .inr ?_⟩
  cases walked : (arena.modifyBlock id ({ · with next := none })).subtreeIds id with
  | error damage => exact ⟨damage, rfl⟩
  | ok order =>
    have explores : Search.Explores (state.modifyBlock id ({ · with next := none })) owned [id] []
        order := by
      apply explores_congr (explores_of_subtreeIds walked)
      intro other met
      obtain ⟨_, present⟩ := exists_of_walked walked met
      obtain ⟨kept, lookup⟩ := (exists_get?_modifyBlock arena id _ other).mp ⟨_, present⟩
      obtain ⟨changed, stored, inputs, branches, next⟩ := keeps order walked other met kept lookup
      rw [childrenAt, get?_modifyBlock, get?_modifyBlock, lookup, stored]
      split
      · refine ⟨_, rfl, ?_⟩
        simp only [Option.map_some, Option.getD_some, Block.childIds_eq, Block.branch, inputs,
          branches]
      · refine ⟨_, rfl, ?_⟩
        simp only [Option.map_some, Option.getD_some, Block.childIds_eq, Block.branch, inputs,
          branches, next]
    cases (collect_of_explores explores).symm.trans failed

/-- A parent that takes another block in the place of a deleted one is not among its contents. Where
the block is its own parent the replacement changes nothing. -/
theorem get?_relinked {parent : String} {owner changed : Block} {order : List String}
    (found : arena.get? id = some block) (ownerFound : arena.get? parent = some owner)
    (replaced : owner.replaceChild? id block.next = some changed)
    (walked : (arena.modifyBlock id ({ · with next := none })).subtreeIds id = .ok order)
    {other : String} (met : other ∈ order) :
    (arena.modifyBlock parent fun _ => changed).get? other = arena.get? other := by
  rw [get?_modifyBlock]
  split
  · rename_i isParent
    subst isParent
    have absent := not_mem_childrenAt_of_walked walked met
    by_cases own : other = id
    · subst own
      cases Option.some.inj (found.symm.trans ownerFound)
      rw [childrenAt_modifyBlock arena found, if_pos rfl] at absent
      rw [found, Option.map_some]
      rcases Block.replaceChild?_cases replaced with
        ⟨-, rfl⟩ | ⟨branch, head, -⟩ | ⟨slot, member, plugged, -⟩
      · rfl
      · have kept : ({ block with next := none } : Block).branch branch = some other := head
        exact absurd (Block.mem_childIds_of_branch kept) absent
      · have kept : slot ∈ ({ block with next := none } : Block).inputs := member
        exact absurd (Block.mem_childIds_of_block kept plugged) absent
    · rw [childrenAt_modifyBlock arena found, if_neg own, childrenAt_of_get? ownerFound] at absent
      exact absurd (Block.mem_childIds_of_replaceChild? replaced) absent
  · rfl

/-- What the parent of a deleted block takes in its place is no matter for the contents. -/
theorem keeps_relinked {parent : String} {owner changed : Block}
    (found : arena.get? id = some block) (ownerFound : arena.get? parent = some owner)
    (replaced : owner.replaceChild? id block.next = some changed) (order : List String)
    (walked : (arena.modifyBlock id ({ · with next := none })).subtreeIds id = .ok order) :
    Keeps arena order (arena.modifyBlock parent fun _ => changed) :=
  .of_get? fun _ met => get?_relinked found ownerFound replaced walked met

/-- A block that has given up its place cannot be walked through only if it could not before. -/
theorem Freed.ragged (freed : Freed arena id block state) (found : arena.get? id = some block)
    {damage : Damage} (failed : state.subtreeIds id = .error damage) :
    state = arena ∨ arena.Ragged id := by
  cases freed with
  | alone => exact .inl rfl
  | @replaced parent owner changed _ down ownerFound replaced =>
    obtain ⟨kept, lookup, loses⟩ := (released_replace ownerFound replaced).blocks id block found
    have last : ({ kept with next := none } : Block) = kept := by
      cases below : kept.next with
      | none => rw [← below]
      | some lower => cases down.symm.trans (loses.below lower below)
    have same : (arena.modifyBlock parent fun _ => changed).modifyBlock id ({ · with next := none }) =
        arena.modifyBlock parent fun _ => changed := modifyBlock_eq_self lookup last
    rw [← same] at failed
    exact .inr (ragged_of_unwalked found
      (keeps_relinked found ownerFound (down.symm ▸ replaced)) failed)
  | promoted _ down ownerFound replaced =>
    refine .inr (ragged_of_unwalked found (fun order walked => ?_) failed)
    have around := keeps_relinked found ownerFound (down.symm ▸ replaced) order walked
    exact around.modifyBlock _ fun _ => ⟨rfl, rfl, rfl⟩
  | @headed lower _ _ =>
    refine .inr (ragged_of_unwalked found (fun order _ => ?_) failed)
    have marked : Keeps arena order (arena.setTopLevel lower true) :=
      (Keeps.of_get? fun _ _ => rfl).setTopLevel lower
    have placed : Keeps arena order ((arena.setTopLevel lower true).modifyBlock lower
        ({ · with x := block.x, y := block.y })) := marked.modifyBlock lower fun _ => ⟨rfl, rfl, rfl⟩
    exact placed.modifyBlock lower fun _ => ⟨rfl, rfl, rfl⟩

/-- A deletion that fails changes nothing, unless the links of the block itself are damaged. -/
theorem delete_fails (arena : Arena) (id : String) :
    After (delete id) arena (fun _ _ => True) fun _ next => next = arena ∨ arena.Ragged id := by
  apply (discards_of_delete arena id).mono
  · intro _ _ _
    trivial
  · intro _ _ halts
    cases halts with
    | refused => exact .inl rfl
    | unowned => exact .inl rfl
    | headless => exact .inl rfl
    | interrupted found up down missing =>
      exact .inr ⟨_, found, .inl ⟨by simp [up], _, down, missing⟩⟩
    | unwalked found _ freed failed => exact freed.ragged found failed

end Arena

namespace Project

variable {α : Type} {project : Project}

/-- A failure on the blocks of the editing target, seen from the project. -/
theorem onEditingBlocks_fails {change : Revision Arena α} {damaged : Arena → Prop}
    (fails : ∀ arena : Arena, After change arena (fun _ _ => True)
      fun _ next => next = arena ∨ damaged arena) :
    After (onEditingBlocks change) project (fun _ _ => True) fun _ next => next = project ∨
      ∃ index target, project.requireEditing = .ok (index, target) ∧ damaged target.blocks := by
  rw [onEditingBlocks, after_bind, after_editingIndex]
  refine ⟨fun index target required => ?_, fun _ _ => .inl rfl⟩
  have found := (requireEditing_eq_ok required).2
  rw [after_onBlocks_of_get? found]
  apply (fails target.blocks).mono
  · intro _ _ _
    trivial
  · rintro _ _ (rfl | isDamaged)
    · exact .inl (putBlocks_same found)
    · exact .inr ⟨index, target, required, isDamaged⟩

/-- What a structural edit leaves of a project when it fails, however damaged the project is. A block
that cannot be detached leaves all as it was. So does one that cannot be connected, unless the place
it was to go to names a block that is missing; and one that cannot be deleted, unless it has a parent
and the block below it is missing, or its own contents cannot be walked through. -/
theorem edits_fail (project : Project) :
    (∀ source target placement fault next,
      connectBlocks source target placement project = .error fault next → next = project ∨
        ∃ index edited, project.requireEditing = .ok (index, edited) ∧
          edited.blocks.Vacant target placement) ∧
    (∀ id fault next, detachBlocks id project = .error fault next → next = project) ∧
    ∀ id fault next, deleteBlock id project = .error fault next → next = project ∨
      ∃ index edited, project.requireEditing = .ok (index, edited) ∧ edited.blocks.Ragged id := by
  refine ⟨?_, ?_, ?_⟩
  · intro source target placement fault next failed
    have fails := fun arena : Arena => arena.connect_fails source target placement
    exact (after_of_error failed).mp (onEditingBlocks_fails fails)
  · intro id fault next failed
    have fails : ∀ arena : Arena, After (Arena.detach id) arena (fun _ _ => True)
        fun _ next => next = arena ∨ False :=
      fun arena => (arena.detach_fails id).mono (fun _ _ _ => trivial) fun _ _ => .inl
    rcases (after_of_error failed).mp (onEditingBlocks_fails fails) with same | ⟨_, _, -, never⟩
    · exact same
    · exact never.elim
  · intro id fault next failed
    have fails := fun arena : Arena => arena.delete_fails id
    exact (after_of_error failed).mp (onEditingBlocks_fails fails)

end Project

namespace Document

/-- A document with a missing block in an input and another one below a block. -/
def damagedDocument : Json :=
  .ofMembers [("targets", .array [.ofMembers
    [("name", .text "Cat"), ("isStage", .bool false),
      ("blocks", .ofMembers
        [("a", .ofMembers
          [("opcode", .text "looks_say"), ("next", .text "b"), ("topLevel", .bool true),
            ("inputs", .ofMembers [("MESSAGE", .array [.ofNat 1, .text "gone"])])]),
          ("b", .ofMembers
            [("opcode", .text "looks_show"), ("next", .text "lost"), ("parent", .text "a")]),
          ("c", .ofMembers [("opcode", .text "looks_hide")])])]])]

def damagedProject : Project :=
  .ofTargets [{
    name := "Cat"
    isStage := false
    blocks :=
      { blocks := .ofList
          [("a", {
              opcode := "looks_say"
              next := some "b"
              topLevel := true
              inputs := [⟨"MESSAGE", some "gone", some "gone"⟩] }),
            ("b", { opcode := "looks_show", next := some "lost", parent := some "a" }),
            ("c", { opcode := "looks_hide" })]
        scripts := ["a"] }
    rest := .ofList [("name", .text "Cat"), ("isStage", .bool false)] }] ∅

/-- A block that cannot be walked through is not moved at all. -/
theorem edits_fail_connect : ∃ fault next,
    Project.connectBlocks "a" "c" .stackAfter damagedProject = .error fault next ∧
      next = damagedProject := by
  have failed : Project.connectBlocks "a" "c" .stackAfter damagedProject =
      .error (.damaged (.missingBlock "gone"))
        ((Project.connectBlocks "a" "c" .stackAfter).final damagedProject) := by decide +kernel
  refine ⟨_, _, failed, ?_⟩
  rcases (Project.edits_fail damagedProject).1 _ _ _ _ _ failed with same | ⟨_, _, required, vacant⟩
  · exact same
  · cases required
    obtain ⟨owner, lower, found, leaves, -⟩ := vacant
    cases found
    cases leaves

/-- Two edits that stop half-way: the block below a deleted one has become a script although the
deletion fails, and a moved block stands in its new place although the move fails. -/
theorem edits_stop_halfway :
    readProject damagedDocument = .ok damagedProject ∧
      (∃ next, Project.deleteBlock "a" damagedProject =
          .error (.damaged (.missingBlock "gone")) next ∧
        next.targets.map (fun target => target.blocks.scripts) = [["a", "b"]] ∧
        next ≠ damagedProject) ∧
      ∃ next, Project.connectBlocks "c" "b" .stackAfter damagedProject =
          .error (.damaged (.missingBlock "lost")) next ∧
        next.targets.map (fun target => (target.blocks.get? "b").bind Block.next) = [some "c"] ∧
        next ≠ damagedProject := by
  refine ⟨by decide +kernel, ⟨(Project.deleteBlock "a").final damagedProject, ?_⟩,
    ⟨(Project.connectBlocks "c" "b" .stackAfter).final damagedProject, ?_⟩⟩
  · decide +kernel
  · decide +kernel

end Document

end BlockGraph
