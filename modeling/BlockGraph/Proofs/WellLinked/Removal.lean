import BlockGraph.Proofs.WellLinked.Moves

/-!
Removing blocks keeps an arena well-linked. A block goes with all that it owns, once it has let go of
the block below it, which takes its place.
-/

set_option autoImplicit false

namespace BlockGraph.Arena

open Forest Revision

variable {arena : Arena} {id root : String} {block : Block} {gone : List String}

theorem childrenAt_removeAll (arena : Arena) (gone : List String) (id : String) :
    (arena.removeAll gone).childrenAt id = if id ∈ gone then [] else arena.childrenAt id := by
  rw [childrenAt, get?_removeAll]
  split
  · rfl
  · rfl

theorem parent?_removeAll (arena : Arena) (gone : List String) (id : String) :
    (arena.removeAll gone).parent? id = if id ∈ gone then none else arena.parent? id := by
  rw [parent?, get?_removeAll]
  split
  · rfl
  · rfl

theorem isShadow_removeAll (arena : Arena) (gone : List String) (id : String) :
    (arena.removeAll gone).IsShadow id ↔ id ∉ gone ∧ arena.IsShadow id := by
  rw [IsShadow, get?_removeAll]
  split
  · rename_i member
    simp [member]
  · rename_i absent
    simp [absent, IsShadow]

/-- Shadows still fit when no block that stays has lost a child. -/
theorem Fitted.removeAll (fitted : arena.Fitted)
    (upward : ∀ owner, owner ∉ gone → ∀ id ∈ arena.childrenAt owner, id ∉ gone) :
    (arena.removeAll gone).Fitted := by
  intro owner block found
  rw [get?_removeAll] at found
  split at found
  · cases found
  rename_i stays
  apply (fitted owner block found).congr
  intro id member
  rw [← childrenAt_of_get? found] at member
  rw [isShadow_removeAll]
  exact and_iff_right (upward owner stays id member)

/-- A block that can be discarded: what it owns is a tree, and nothing else refers to it. The parents
are those of the arena, except that the block itself has none. -/
structure Severed (arena : Arena) (root : String) (parent : String → Option String) : Prop where
  forest : Linked arena.childrenAt parent
  fitted : arena.Fitted
  found : ∃ block, arena.get? root = some block
  free : parent root = none
  others : ∀ id, id ≠ root → arena.parent? id = parent id
  tops : ∀ id, id ≠ root → (∃ block, arena.get? id = some block) →
    (id ∈ arena.scripts ↔ arena.parent? id = none)

namespace Severed

variable {parent : String → Option String}

theorem stored (severed : arena.Severed root parent) :
    ∀ owner, ∀ id ∈ arena.childrenAt owner, ∃ block, arena.get? id = some block := by
  intro owner id member
  have up := severed.forest.parent_of_mem member
  have different : id ≠ root := by
    rintro rfl
    rw [severed.free] at up
    cases up
  rw [← severed.others id different] at up
  obtain ⟨block, found, -⟩ := exists_of_parent? up
  exact ⟨block, found⟩

theorem knit_removeAll (severed : arena.Severed root parent)
    (below : ∀ id, id ∈ gone ↔ Above parent root id) : (arena.removeAll gone).Knit := by
  have downward : ∀ owner ∈ gone, ∀ id ∈ arena.childrenAt owner, id ∈ gone := by
    intro owner inside id member
    rw [below] at inside ⊢
    exact .step (severed.forest.parent_of_mem member) inside
  have upward : ∀ id ∈ gone, ∀ owner, parent id = some owner → owner ∈ gone := by
    intro id inside owner up
    rw [below] at inside ⊢
    cases inside with
    | self =>
      rw [severed.free] at up
      cases up
    | step link higher =>
      rw [link] at up
      exact Option.some.inj up ▸ higher
  have parents : ∀ id, (arena.removeAll gone).parent? id = if id ∈ gone then none else parent id := by
    intro id
    rw [parent?_removeAll]
    split
    · rfl
    · rename_i stays
      apply severed.others
      rintro rfl
      exact stays ((below id).mpr .self)
  refine { forest := ?forest, tops := ?tops, fitted := ?fitted }
  case forest =>
    exact severed.forest.drop downward upward (childrenAt_removeAll arena gone) parents
  case tops =>
    rintro id ⟨block, found⟩
    rw [get?_removeAll] at found
    split at found
    · cases found
    rename_i stays
    have different : id ≠ root := by
      rintro rfl
      exact stays ((below id).mpr .self)
    rw [scripts_removeAll, parent?_removeAll, if_neg stays, ← severed.tops id different ⟨block, found⟩,
      List.mem_filter]
    simp [stays]
  case fitted =>
    apply severed.fitted.removeAll
    intro owner stays id member inside
    exact stays (upward id inside owner (severed.forest.parent_of_mem member))

end Severed

theorem WellLinked.severed (linked : arena.WellLinked) (found : arena.get? id = some block)
    (top : block.parent = none) : arena.Severed id arena.parent? :=
  ⟨linked.forest, linked.fitted, ⟨block, found⟩, (parent?_of_get? found).trans top,
    fun _ _ => rfl, fun _ _ ⟨_, found⟩ => linked.tops found⟩

/-- A block that its parent has let go of, its own mark of a parent being left. -/
theorem severed_of_replace (linked : arena.WellLinked) {parent : String} {owner changed : Block}
    (found : arena.get? id = some block) (solid : ¬arena.IsShadow id)
    (up : block.parent = some parent) (ownerFound : arena.get? parent = some owner)
    (replaced : owner.replaceChild? id none = some changed) :
    (arena.modifyBlock parent fun _ => changed).Severed id
      fun other => if other = id then none else arena.parent? other := by
  have link : arena.parent? id = some parent := by rw [parent?_of_get? found, up]
  have loosened := loosened_of_replace linked solid link ownerFound replaced
  have parents : (arena.modifyBlock parent fun _ => changed).parent? = arena.parent? := by
    apply parent?_modifyBlock_same
    intro other lookup
    obtain rfl := Option.some.inj (ownerFound.symm.trans lookup)
    exact Block.parent_of_frame (Block.frame_of_replaceChild? replaced).1
  refine { forest := ?forest, fitted := ?fitted, found := ?found, free := if_pos rfl,
           others := ?others, tops := ?tops }
  case forest =>
    have forest := loosened.forest
    rw [childrenAt_setParent, funext loosened.parents] at forest
    exact forest
  case fitted =>
    apply linked.fitted.modifyBlock
    · intro other lookup
      obtain rfl := Option.some.inj (ownerFound.symm.trans lookup)
      exact Block.opcode_of_frame (Block.frame_of_replaceChild? replaced).1
    · intro _ _
      exact Block.fits_replaceChild? (linked.fitted parent owner ownerFound) replaced (by simp)
  case found =>
    rw [exists_get?_modifyBlock]
    exact ⟨block, found⟩
  case others =>
    intro other different
    rw [parents, if_neg different]
  case tops =>
    intro other _ stored
    obtain ⟨kept, lookup⟩ := (exists_get?_modifyBlock arena parent _ other).mp stored
    rw [parents]
    exact linked.tops lookup

/-- A block whose parent has taken the block below it in its place. -/
theorem severed_of_promote (linked : arena.WellLinked) {parent lower : String}
    {owner changed : Block} (found : arena.get? id = some block) (solid : ¬arena.IsShadow id)
    (up : block.parent = some parent) (down : block.next = some lower)
    (ownerFound : arena.get? parent = some owner)
    (replaced : owner.replaceChild? id (some lower) = some changed) :
    (((arena.modifyBlock parent fun _ => changed).modifyBlock lower
        ({ · with parent := some parent })).modifyBlock id ({ · with next := none })).Severed id
      fun other => if other = lower then some parent
        else if other = id then none else arena.parent? other := by
  have link : arena.parent? id = some parent := by rw [parent?_of_get? found, up]
  have grandchild : lower ∈ arena.childrenAt id :=
    mem_childrenAt found (Block.mem_childIds_of_next down)
  have lowerUp := linked.forest.parent_of_mem grandchild
  have apart : id ≠ lower := (linked.forest.rooted lower).ne_parent lowerUp
  have parentApart : parent ≠ id := (linked.forest.rooted id).ne_parent link
  have fits := linked.fitted parent owner ownerFound
  have lowerSolid : ∀ child, some lower = some child → ¬arena.IsShadow child := by
    rintro child ⟨⟩
    exact (linked.fitted id block found).next lower down
  have isNew : ∀ child, some lower = some child → child ∉ owner.childIds := by
    rintro child ⟨⟩ member
    rw [← childrenAt_of_get? ownerFound] at member
    have same := lowerUp.symm.trans (linked.forest.parent_of_mem member)
    exact parentApart (Option.some.inj same).symm
  have frame := (Block.frame_of_replaceChild? replaced).1
  have opcode : ∀ other, arena.get? parent = some other → changed.opcode = other.opcode := by
    intro other lookup
    obtain rfl := Option.some.inj (ownerFound.symm.trans lookup)
    exact Block.opcode_of_frame frame
  let first := arena.modifyBlock parent fun _ => changed
  let second := first.modifyBlock lower ({ · with parent := some parent })
  let third := second.modifyBlock id ({ · with next := none })
  have firstParents : first.parent? = arena.parent? := by
    apply parent?_modifyBlock_same
    intro other lookup
    obtain rfl := Option.some.inj (ownerFound.symm.trans lookup)
    exact Block.parent_of_frame frame
  obtain ⟨low, lowFound⟩ : ∃ block, first.get? lower = some block := by
    rw [exists_get?_modifyBlock]
    exact linked.found_of_mem grandchild
  have secondFound : second.get? id = some block := by
    rw [get?_modifyBlock, if_neg apart, get?_modifyBlock, if_neg (Ne.symm parentApart), found]
  have parents : ∀ other, third.parent? other =
      if other = lower then some parent else arena.parent? other := by
    intro other
    rw [parent?_setNext second id none, parent?_modifyBlock first lowFound, firstParents]
  have children : ∀ other, third.childrenAt other =
      if other = id then ({ block with next := none } : Block).childIds
      else if other = parent then changed.childIds else arena.childrenAt other := by
    intro other
    rw [childrenAt_modifyBlock second secondFound, childrenAt_setParent first lower (some parent),
      childrenAt_modifyBlock arena ownerFound]
  refine { forest := ?forest, fitted := ?fitted, found := ?found, free := ?free,
           others := ?others, tops := ?tops }
  case forest =>
    have ownerSwaps : Swaps (arena.childrenAt parent) (third.childrenAt parent) (some id)
        (some lower) := by
      rw [children, if_neg parentApart, if_pos rfl, childrenAt_of_get? ownerFound]
      exact Block.swaps_replaceChild? fits solid replaced isNew
    have swaps : Swaps (arena.childrenAt id) (third.childrenAt id) (some lower) none := by
      rw [children, if_pos rfl, childrenAt_of_get? found]
      exact down ▸ block.swaps_next none
    refine linked.forest.promote ((linked.forest.parent_iff parent id).mp link) grandchild ownerSwaps
      swaps ?_ fun _ => rfl
    intro other notParent notId
    rw [children, if_neg notId, if_neg notParent]
  case fitted =>
    have firstFitted : first.Fitted :=
      linked.fitted.modifyBlock opcode fun _ _ => Block.fits_replaceChild? fits replaced lowerSolid
    have secondFitted : second.Fitted :=
      firstFitted.modifyFrame (fun _ => rfl) fun _ => ⟨rfl, rfl, rfl⟩
    exact secondFitted.modifyBlock (fun _ _ => rfl) fun other lookup =>
      (secondFitted id other lookup).setNext (by simp)
  case found =>
    exact (exists_get?_modifyBlock second id _ id).mpr ⟨block, secondFound⟩
  case free =>
    simp [apart]
  case others =>
    intro other different
    rw [parents, if_neg different]
  case tops =>
    intro other different stored
    rw [exists_get?_modifyBlock, exists_get?_modifyBlock, exists_get?_modifyBlock] at stored
    obtain ⟨kept, lookup⟩ := stored
    have scripts : third.scripts = arena.scripts := rfl
    rw [parents, scripts, linked.tops lookup]
    by_cases isLower : other = lower
    · simp [isLower, lowerUp]
    · simp [isLower]

/-- A script whose second block has become a script of its own. -/
theorem severed_of_script (linked : arena.WellLinked) {lower : String} (x y : Option Binary64)
    (found : arena.get? id = some block) (top : block.parent = none)
    (down : block.next = some lower) :
    ((((arena.setTopLevel lower true).modifyBlock lower ({ · with x := x, y := y })).modifyBlock lower
        ({ · with parent := none })).modifyBlock id ({ · with next := none })).Severed id
      fun other => if other = lower then none else arena.parent? other := by
  have child : lower ∈ arena.childrenAt id := mem_childrenAt found (Block.mem_childIds_of_next down)
  have up := linked.forest.parent_of_mem child
  have apart : id ≠ lower := (linked.forest.rooted lower).ne_parent up
  let first := arena.setTopLevel lower true
  let second := first.modifyBlock lower ({ · with x := x, y := y })
  let third := second.modifyBlock lower ({ · with parent := none })
  let fourth := third.modifyBlock id ({ · with next := none })
  have present : ∀ other, (∃ block, fourth.get? other = some block) ↔
      ∃ block, arena.get? other = some block := by
    intro other
    rw [exists_get?_modifyBlock, exists_get?_modifyBlock, exists_get?_modifyBlock]
    exact exists_get?_modifyBlock arena lower _ other
  have thirdFound : third.get? id = some block := by
    rw [get?_modifyBlock, if_neg apart, get?_modifyBlock, if_neg apart, get?_setTopLevel,
      if_neg apart, found]
  obtain ⟨low, lowFound⟩ : ∃ block, second.get? lower = some block := by
    obtain ⟨old, lookup⟩ := linked.found_of_mem child
    refine (exists_get?_modifyBlock first lower _ lower).mpr ?_
    exact (exists_get?_modifyBlock arena lower _ lower).mpr ⟨old, lookup⟩
  have parents : ∀ other, fourth.parent? other =
      if other = lower then none else arena.parent? other := by
    intro other
    have secondParents : second.parent? = first.parent? :=
      parent?_modifyBlock_same first lower fun _ _ => rfl
    rw [parent?_setNext third id none, parent?_modifyBlock second lowFound, secondParents,
      parent?_setTopLevel]
    by_cases same : other = lower
    · simp [same]
    · simp [same]
  have children : ∀ other, fourth.childrenAt other =
      if other = id then ({ block with next := none } : Block).childIds
      else arena.childrenAt other := by
    intro other
    have secondChildren : second.childrenAt = first.childrenAt :=
      childrenAt_modifyBlock_same first lower fun _ _ => rfl
    rw [childrenAt_modifyBlock third thirdFound, childrenAt_setParent second lower none,
      secondChildren, childrenAt_setTopLevel]
  refine { forest := ?forest, fitted := ?fitted, found := (present id).mpr ⟨block, found⟩,
           free := ?free, others := ?others, tops := ?tops }
  case forest =>
    have swaps : Swaps (arena.childrenAt id) (fourth.childrenAt id) (some lower) none := by
      rw [children, if_pos rfl, childrenAt_of_get? found]
      exact down ▸ block.swaps_next none
    apply linked.forest.swap swaps
    · intro other different
      rw [children, if_neg different]
    · intro other
      simp [eq_comm]
    · simp
    · simp
  case fitted =>
    have secondFitted : second.Fitted :=
      (linked.fitted.setTopLevel true).modifyFrame (fun _ => rfl) fun _ => ⟨rfl, rfl, rfl⟩
    have thirdFitted : third.Fitted :=
      secondFitted.modifyFrame (fun _ => rfl) fun _ => ⟨rfl, rfl, rfl⟩
    exact thirdFitted.modifyBlock (fun _ _ => rfl) fun other lookup =>
      (thirdFitted id other lookup).setNext (by simp)
  case free =>
    simp [apart, parent?_of_get? found, top]
  case others =>
    intro other _
    rw [parents]
  case tops =>
    intro other different stored
    obtain ⟨kept, lookup⟩ := (present other).mp stored
    have listed : other ∈ fourth.scripts ↔ other ∈ arena.scripts ∨ other = lower := mem_withScript
    rw [parents, listed, linked.tops lookup]
    by_cases same : other = lower
    · simp [same]
    · simp [same]

theorem Freed.severed {state : Arena} (freed : Freed arena id block state)
    (linked : arena.WellLinked) (found : arena.get? id = some block) (solid : ¬arena.IsShadow id) :
    ∃ parent, state.Severed id parent := by
  cases freed with
  | replaced up _ ownerFound replaced =>
    exact ⟨_, severed_of_replace linked found solid up ownerFound replaced⟩
  | promoted up down ownerFound replaced =>
    exact ⟨_, severed_of_promote linked found solid up down ownerFound replaced⟩
  | alone up _ => exact ⟨_, linked.severed found up⟩
  | headed up down => exact ⟨_, severed_of_script linked block.x block.y found up down⟩

/-- A block that may be deleted gives up its place, and goes with all that it still owns; one that may
not stays with all the rest. -/
theorem after_delete_freed (linked : arena.WellLinked) (id : String) :
    After (delete id) arena
      (fun deletion next => ∃ block state, arena.get? id = some block ∧ ¬arena.IsShadow id ∧
        Freed arena id block state ∧ state.subtreeIds id = .ok deletion.removed ∧
        deletion.opcode = block.opcode ∧ deletion.topLevel = block.topLevel ∧
        next = state.removeAll deletion.removed)
      fun fault next => next = arena ∧ arena.movable .target id = .error fault := by
  have lower_stored {block : Block} {lower : String} (found : arena.get? id = some block)
      (down : block.next = some lower) : ∃ low, arena.get? lower = some low :=
    linked.found_of_mem (mem_childrenAt found (Block.mem_childIds_of_next down))
  apply (discards_of_delete arena id).mono
  · rintro _ _ ⟨found, solid, freed, walked⟩
    exact ⟨_, _, found, not_isShadow found solid, freed, walked, rfl, rfl, rfl⟩
  · intro fault next halts
    cases halts with
    | refused failed => exact ⟨rfl, failed⟩
    | unowned found solid up unowned =>
      obtain ⟨owner, changed, ownerFound, replaced⟩ := linked.exists_replaceChild?
        (not_isShadow found solid) ((parent?_of_get? found).trans up) _
      cases (unowned owner ownerFound).symm.trans replaced
    | headless found _ down missing =>
      obtain ⟨_, stored⟩ := lower_stored found down
      cases missing.symm.trans stored
    | interrupted found _ down missing =>
      obtain ⟨_, stored⟩ := lower_stored found down
      cases missing.symm.trans stored
    | unwalked found solid freed failed =>
      obtain ⟨parent, severed⟩ := freed.severed linked found (not_isShadow found solid)
      obtain ⟨order, walked, -⟩ := subtreeIds_of_linked severed.forest severed.stored severed.found
      cases walked.symm.trans failed

/-- Deleting a block keeps the links; a block that may not be deleted stays with all the rest. -/
theorem after_delete (linked : arena.WellLinked) (id : String) :
    After (delete id) arena (fun _ next => next.WellLinked)
      fun fault next => next = arena ∧ fault.IsRefusal := by
  apply ((after_delete_freed linked id).and (maintains_delete id arena linked.tidy)).mono
  · rintro deletion _ ⟨⟨block, state, found, solid, freed, walked, -, -, rfl⟩, tidy⟩
    obtain ⟨parent, severed⟩ := freed.severed linked found solid
    obtain ⟨order, same, below⟩ := subtreeIds_of_linked severed.forest severed.stored severed.found
    cases walked.symm.trans same
    exact (severed.knit_removeAll below).wellLinked tidy
  · rintro fault next ⟨⟨same, failed⟩, -⟩
    exact ⟨same, refuses_movable arena .target id fault failed⟩

end BlockGraph.Arena
