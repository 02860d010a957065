import BlockGraph.Proofs.Grafting
import BlockGraph.Proofs.Numbering

/-!
A deleted block goes with its own contents and nothing else. All that it owns through its inputs and
branches is listed and removed; the block below it takes its place, on the parent or as a script, and
all other blocks stay as they are. Where a block that a listing numbers is deleted from its parent, the
numbering afterwards is the one from before without the removed blocks: a search through what is left
follows the old one, with the links of each removed block in its place.
-/

set_option autoImplicit false

namespace BlockGraph

namespace Search

variable {arena next : Arena} {links : Block → Option (List String)} {agenda order : List String}

namespace Padded

variable {hidden : String → Prop} {first second left right : List String}

theorem append (front : Padded hidden first left) (back : Padded hidden second right) :
    Padded hidden (first ++ second) (left ++ right) := by
  induction front with
  | nil => exact back
  | keep _ ih => exact .keep ih
  | pad isHidden _ ih => exact .pad isHidden ih

end Padded

/-- Blocks are left out of a preorder when the place of each is taken by what remains of its links. -/
theorem Preorder.pruned {gone : List String} {trim : String → List String}
    (kept : ∀ id block, arena.get? id = some block → id ∉ gone → trim id = [id] ∧
      ∃ changed, next.get? id = some changed ∧ Option.Rel (Padded (Hidden next links))
        ((links block).map (List.flatMap trim)) (links changed))
    (dropped : ∀ id block, arena.get? id = some block → id ∈ gone →
      trim id = ((links block).getD []).flatMap trim)
    (preorder : Preorder arena links agenda order) :
    Preorder next links (agenda.flatMap trim) (order.filter (· ∉ gone)) := by
  have self : ∀ id block, next.get? id = some block → ∃ changed, next.get? id = some changed ∧
      Option.Rel (Padded (Hidden next links)) (links block) (links changed) :=
    fun id block found => ⟨block, found, Padded.rel_refl (links block)⟩
  -- A block that goes contributes the preorder of its links alone, which the induction has trimmed.
  induction preorder with
  | done => exact .done
  | @hidden id block rest order found hidden _ ih =>
    rw [List.flatMap_cons]
    by_cases member : id ∈ gone
    · rw [dropped id block found member, hidden]
      exact ih
    · obtain ⟨stays, changed, lookup, related⟩ := kept id block found member
      rw [hidden] at related
      rw [stays]
      cases same : links changed with
      | none => exact .hidden lookup same ih
      | some below =>
        rw [same] at related
        cases related
  | @shown id block below rest inner later found visible _ _ inside ih =>
    rw [List.flatMap_cons, List.filter_append]
    by_cases member : id ∈ gone
    · rw [dropped id block found member, visible, List.filter_cons_of_neg (by simpa using member)]
      exact inside.append ih
    · obtain ⟨stays, changed, lookup, related⟩ := kept id block found member
      rw [visible] at related
      rw [stays, List.filter_cons_of_pos (by simpa using member)]
      cases same : links changed with
      | none =>
        rw [same] at related
        cases related
      | some wide =>
        rw [same] at related
        cases related with
        | some padded => exact .shown lookup same (inside.of_padded self padded) ih

end Search

namespace Block

/-- What a block owns apart from the block below it. -/
def contents (block : Block) : List String :=
  block.inputs.flatMap Input.childIds ++ Branch.all.filterMap block.branch

theorem childIds_eq_contents (block : Block) :
    block.childIds = block.contents ++ block.next.toList :=
  rfl

theorem childIds_setNext_none (block : Block) :
    ({ block with next := none } : Block).childIds = block.contents := by
  rw [childIds_eq_contents, Option.toList_none, List.append_nil]
  rfl

/-- The block below a deleted one takes its parent, or its place as a script. -/
def succeed (deleted below : Block) : Block :=
  match deleted.parent with
  | some parent => { below with parent := some parent }
  | none => { below with parent := none, topLevel := true, x := deleted.x, y := deleted.y }

end Block

namespace Arena

open Forest Revision Search

variable {arena state next : Arena} {id : String} {block : Block}

/-- An arena in which a block has given up its place to the block below it, and let go of that one. -/
structure Vacated (arena : Arena) (id : String) (block : Block) (state : Arena) : Prop where
  own : state.get? id = some { block with next := none }
  slot : ∀ parent owner, block.parent = some parent → arena.get? parent = some owner →
    state.get? parent = some (owner.exchange id block.next)
  below : ∀ lower low, block.next = some lower → arena.get? lower = some low →
    state.get? lower = some (block.succeed low)
  others : ∀ other, other ≠ id → block.parent ≠ some other → block.next ≠ some other →
    state.get? other = arena.get? other
  scripts : state.scripts =
    if block.parent = none then arena.scripts ++ block.next.toList else arena.scripts
  counter : state.counter = arena.counter

/-- An arena from which a block is gone, with its contents. -/
structure Deleted (arena : Arena) (id : String) (block : Block) (gone : List String)
    (next : Arena) : Prop where
  /-- The block comes first, and then all that is below its contents, depth first. -/
  order : ∃ inner, gone = id :: inner ∧ Preorder arena owned block.contents inner
  distinct : gone.Nodup
  mem_iff : ∀ other, other ∈ gone ↔
    other = id ∨ ∃ child ∈ block.contents, Above arena.parent? child other
  /-- The block below stays, and all that is below it. -/
  spared : ∀ lower, block.next = some lower → ∀ other, Above arena.parent? lower other → other ∉ gone
  ids : ∀ other, other ∈ next.ids ↔ other ∈ arena.ids ∧ other ∉ gone
  /-- The slot of the block holds the one below; an input that gets none holds its shadow. -/
  slot : ∀ parent owner, block.parent = some parent → arena.get? parent = some owner →
    next.get? parent = some (owner.exchange id block.next)
  below : ∀ lower low, block.next = some lower → arena.get? lower = some low →
    next.get? lower = some (block.succeed low)
  others : ∀ other, other ∉ gone → block.parent ≠ some other → block.next ≠ some other →
    next.get? other = arena.get? other
  scripts : next.scripts =
    if block.parent = none then withoutScript arena.scripts id ++ block.next.toList else arena.scripts
  counter : next.counter = arena.counter

section

variable (linked : arena.WellLinked) (found : arena.get? id = some block)

include linked found

theorem WellLinked.parent?_of_next {lower : String} (down : block.next = some lower) :
    arena.parent? lower = some id := by
  exact linked.forest.parent_of_mem (mem_childrenAt found (Block.mem_childIds_of_next down))

theorem WellLinked.next_ne {lower : String} (down : block.next = some lower) : lower ≠ id :=
  Ne.symm ((linked.forest.rooted lower).ne_parent (linked.parent?_of_next found down))

theorem WellLinked.next_ne_parent {parent lower : String} (above : block.parent = some parent)
    (down : block.next = some lower) : lower ≠ parent := by
  rintro rfl
  have up := (parent?_of_get? found).trans above
  have link := linked.parent?_of_next found down
  exact (linked.forest.rooted id).not_above_parent up (.of_parent link)

/-- A block, its parent and the block below it are three blocks, and each is changed once. -/
theorem get?_promoted {parent lower : String} {owner : Block} (above : block.parent = some parent)
    (down : block.next = some lower) (ownerFound : arena.get? parent = some owner) (other : String) :
    ((((arena.modifyBlock parent fun _ => owner.exchange id (some lower)).modifyBlock lower
        ({ · with parent := some parent })).modifyBlock id ({ · with next := none })).get? other) =
      if other = id then some { block with next := none }
      else if other = parent then some (owner.exchange id (some lower))
      else if other = lower then (arena.get? other).map ({ · with parent := some parent })
      else arena.get? other := by
  have up := (parent?_of_get? found).trans above
  have parentApart : parent ≠ id := (linked.forest.rooted id).ne_parent up
  have lowerApart := linked.next_ne found down
  have ends := linked.next_ne_parent found above down
  rw [get?_modifyBlock, get?_modifyBlock, get?_modifyBlock]
  by_cases isId : other = id
  · subst isId
    simp [Ne.symm lowerApart, Ne.symm parentApart, found]
  · by_cases isParent : other = parent
    · subst isParent
      simp [isId, Ne.symm ends, ownerFound]
    · by_cases isLower : other = lower
      · subst isLower
        simp [isId, ends]
      · simp [isId, isLower, isParent]

theorem Freed.vacated (freed : Freed arena id block state) : Vacated arena id block state := by
  have up := parent?_of_get? found
  cases freed with
  | @replaced parent owner changed above last ownerFound replaced =>
    rw [Block.exchange_of_replaceChild? (linked.distinct_childIds ownerFound) replaced]
    have different : parent ≠ id := (linked.forest.rooted id).ne_parent (up.trans above)
    refine ⟨?_, ?_, ?_, ?_, ?_, rfl⟩
    · rw [get?_modifyBlock, if_neg (Ne.symm different), found, ← last]
    · intro other stored same lookup
      cases above.symm.trans same
      cases ownerFound.symm.trans lookup
      rw [get?_modifyBlock, if_pos rfl, ownerFound, last]
      rfl
    · intro lower low down
      rw [last] at down
      cases down
    · intro other _ notParent _
      have stays : other ≠ parent := fun same => notParent (same ▸ above)
      rw [get?_modifyBlock, if_neg stays]
    · simp [above, modifyBlock]
  | @promoted parent lower owner changed above down ownerFound replaced =>
    rw [Block.exchange_of_replaceChild? (linked.distinct_childIds ownerFound) replaced]
    have lookups := get?_promoted linked found above down ownerFound
    have different : parent ≠ id := (linked.forest.rooted id).ne_parent (up.trans above)
    refine ⟨?_, ?_, ?_, ?_, ?_, rfl⟩
    · rw [lookups, if_pos rfl]
    · intro other stored same lookup
      cases above.symm.trans same
      cases ownerFound.symm.trans lookup
      rw [lookups, if_neg different, if_pos rfl, down]
    · intro other low same lookup
      cases down.symm.trans same
      rw [lookups, if_neg (linked.next_ne found down),
        if_neg (linked.next_ne_parent found above down), if_pos rfl, lookup, Block.succeed, above]
      rfl
    · intro other notId notParent notLower
      have offParent : other ≠ parent := fun same => notParent (same ▸ above)
      have offLower : other ≠ lower := fun same => notLower (same ▸ down)
      rw [lookups, if_neg notId, if_neg offParent, if_neg offLower]
    · simp [above, modifyBlock]
  | alone top last =>
    refine ⟨?_, ?_, ?_, fun _ _ _ _ => rfl, ?_, rfl⟩
    · rw [found, ← last]
    · intro parent owner above
      rw [top] at above
      cases above
    · intro lower low down
      rw [last] at down
      cases down
    · simp [top, last]
  | @headed lower top down =>
    have different := linked.next_ne found down
    refine ⟨?_, ?_, ?_, ?_, ?_, rfl⟩
    · simp [get?_modifyBlock, get?_setTopLevel, Ne.symm different, found]
    · intro parent owner above
      rw [top] at above
      cases above
    · intro other low same lookup
      cases down.symm.trans same
      simp [get?_modifyBlock, get?_setTopLevel, different, lookup, Block.succeed, top]
    · intro other notId _ notLower
      have offLower : other ≠ lower := fun same => notLower (same ▸ down)
      simp [get?_modifyBlock, get?_setTopLevel, notId, offLower]
    · have unlisted := linked.not_script_of_parent? (linked.parent?_of_next found down)
      simp [top, down, modifyBlock, setTopLevel, withScript, unlisted]

theorem WellLinked.parent?_of_content {child : String} (member : child ∈ block.contents) :
    arena.parent? child = some id := by
  apply linked.forest.parent_of_mem
  rw [childrenAt_of_get? found, Block.childIds_eq_contents]
  exact List.mem_append_left _ member

theorem WellLinked.parent?_of_contents {child other : String} (member : child ∈ block.contents)
    (above : Above arena.parent? child other) :
    ∃ owner, arena.parent? other = some owner ∧ (owner = id ∨ Above arena.parent? child owner) := by
  cases above with
  | self => exact ⟨id, linked.parent?_of_content found member, .inl rfl⟩
  | @step _ owner up higher => exact ⟨owner, up, .inr higher⟩

theorem Vacated.stored_iff (vacated : Vacated arena id block state) (other : String) :
    (∃ held, state.get? other = some held) ↔ ∃ held, arena.get? other = some held := by
  by_cases isId : other = id
  · subst isId
    simp [vacated.own, found]
  by_cases isParent : block.parent = some other
  · have link := (parent?_of_get? found).trans isParent
    obtain ⟨owner, ownerFound, -⟩ :=
      exists_of_mem_childrenAt ((linked.forest.parent_iff other id).mp link)
    simp [vacated.slot other owner isParent ownerFound, ownerFound]
  by_cases isLower : block.next = some other
  · obtain ⟨low, lowFound, -⟩ := exists_of_parent? (linked.parent?_of_next found isLower)
    simp [vacated.below other low isLower lowFound, lowFound]
  rw [vacated.others other isId isParent isLower]

/-- The blocks below the contents of a block, and those below the block under it. -/
theorem WellLinked.contents_walk :
    ∃ inner, Explores arena owned block.contents [id] inner ∧
      (∀ other, other ∈ inner ↔ ∃ child ∈ block.contents, Above arena.parent? child other) ∧
      (∀ other ∈ inner, Above arena.parent? id other) ∧
      ∀ lower, block.next = some lower → ∀ other, Above arena.parent? lower other →
        other ∉ id :: inner := by
  have stored : ∀ owner, ∀ id ∈ arena.childrenAt owner, ∃ block, arena.get? id = some block :=
    fun _ _ => linked.found_of_mem
  have owns : ∀ child ∈ block.childIds, ∃ held, arena.get? child = some held := by
    rw [← childrenAt_of_get? found]
    exact stored id
  obtain ⟨order, walked, below⟩ := subtreeIds_of_linked linked.forest stored ⟨block, found⟩
  have distinct := (explores_of_subtreeIds walked).nodup.1
  cases explores_of_subtreeIds walked with
  | hidden _ hidden _ => cases hidden
  | @shown _ same children _ _ rest lookup visible isNew tail =>
    cases found.symm.trans lookup
    cases visible
    rw [List.append_nil, Block.childIds_eq_contents] at tail
    -- The walk goes through the contents first, and comes to the block below afterwards.
    obtain ⟨inner, later, passed, rfl, upper, lower⟩ := tail.split
    refine ⟨inner, upper, fun other => ?_, fun other member => ?_, fun next down other above => ?_⟩
    · rw [upper.mem_iff_reached, reached_iff linked.forest stored]
      intro child member
      exact owns child (List.mem_append_left _ member)
    · exact (below other).mp (List.mem_cons_of_mem _ (List.mem_append_left _ member))
    · have reached : other ∈ later := by
        rw [lower.mem_iff_reached, down, reached_iff linked.forest stored]
        · exact ⟨next, by simp, above⟩
        · intro child member
          exact owns child (List.mem_append_right _ (down ▸ member))
      rw [List.nodup_cons, List.nodup_append] at distinct
      intro member
      rcases List.mem_cons.mp member with rfl | within
      · exact distinct.1 (List.mem_append_right _ reached)
      · exact distinct.2.2.2 other within other reached rfl

/-- A block that may be deleted gives up its place and goes with what is below it then. -/
theorem delete_freed (solid : Catalog.kind block.opcode ≠ .shadow) :
    ∃ deletion state, delete id arena = .ok deletion (state.removeAll deletion.removed) ∧
      Freed arena id block state ∧ state.subtreeIds id = .ok deletion.removed ∧
      deletion.opcode = block.opcode ∧ deletion.topLevel = block.topLevel := by
  have ends := after_delete_freed linked id
  cases ran : delete id arena with
  | ok deletion next =>
    obtain ⟨same, state, lookup, -, freed, walked, opcode, topLevel, rfl⟩ := (after_of_ok ran).mp ends
    cases found.symm.trans lookup
    exact ⟨deletion, state, rfl, freed, walked, opcode, topLevel⟩
  | error fault next =>
    obtain ⟨-, refused⟩ := (after_of_error ran).mp ends
    cases (movable_of_get? found solid .target).symm.trans refused

theorem Vacated.deleted (vacated : Vacated arena id block state) {gone : List String}
    (walked : state.subtreeIds id = .ok gone) :
    Deleted arena id block gone (state.removeAll gone) := by
  obtain ⟨inner, explores, mem_iff, within, spared⟩ := linked.contents_walk found
  have up := parent?_of_get? found
  have parentOutside : ∀ parent, block.parent = some parent → parent ∉ id :: inner := by
    intro parent above member
    refine (linked.forest.rooted id).not_above_parent (up.trans above) ?_
    rcases List.mem_cons.mp member with rfl | inside
    · exact .self
    · exact within parent inside
  have isNew : id ∉ inner := fun member => explores.nodup.2 id member List.mem_cons_self
  -- The walk through the contents is the same after the block has given up its place.
  have same : state.subtreeIds id = .ok (id :: inner) := by
    apply collect_of_explores
    refine .shown vacated.own rfl (by simp) ?_
    rw [Block.childIds_setNext_none, List.append_nil]
    apply explores_congr explores
    intro other member
    have notId : other ≠ id := fun same => isNew (same ▸ member)
    have notParent : block.parent ≠ some other := fun above =>
      parentOutside other above (List.mem_cons_of_mem _ member)
    have notLower : block.next ≠ some other := fun down =>
      spared other down other .self (List.mem_cons_of_mem _ member)
    obtain ⟨held, lookup⟩ := shown_owned.mp (explores.mem_iff_reached.mp member).shown
    rw [vacated.others other notId notParent notLower, childrenAt_of_get? lookup]
    exact ⟨held, lookup, rfl⟩
  cases walked.symm.trans same
  have lookups : ∀ other, other ∉ id :: inner →
      (state.removeAll (id :: inner)).get? other = state.get? other := by
    intro other outside
    rw [get?_removeAll, if_neg outside]
  have tops : ∀ script ∈ arena.scripts, script ∈ id :: inner → script = id := by
    intro script listed member
    rcases List.mem_cons.mp member with same | inside
    · exact same
    · obtain ⟨child, content, above⟩ := (mem_iff script).mp inside
      obtain ⟨owner, link, -⟩ := linked.parent?_of_contents found content above
      exact absurd listed (linked.not_script_of_parent? link)
  refine { order := ⟨inner, rfl, explores.preorder⟩,
           distinct := List.nodup_cons.mpr ⟨isNew, explores.nodup.1⟩, mem_iff := ?mem_iff,
           spared := spared, ids := ?ids, slot := ?slot, below := ?below, others := ?others,
           scripts := ?scripts, counter := ?counter }
  case mem_iff =>
    intro other
    rw [List.mem_cons, mem_iff]
  case ids =>
    intro other
    rw [mem_ids_iff, mem_ids_iff, ← vacated.stored_iff linked found other, get?_removeAll]
    split
    · rename_i member
      simp [member]
    · rename_i outside
      simp [outside]
  case slot =>
    intro parent owner above ownerFound
    rw [lookups parent (parentOutside parent above)]
    exact vacated.slot parent owner above ownerFound
  case below =>
    intro lower low down lowFound
    rw [lookups lower (spared lower down lower .self)]
    exact vacated.below lower low down lowFound
  case others =>
    intro other outside notParent notLower
    rw [lookups other outside]
    exact vacated.others other (fun same => outside (same ▸ List.mem_cons_self)) notParent notLower
  case scripts =>
    rw [scripts_removeAll, vacated.scripts]
    split
    · rw [List.filter_append, withoutScript]
      congr 1
      · refine List.filter_congr fun script listed => ?_
        have same : script ∈ id :: inner ↔ script = id :=
          ⟨tops script listed, fun same => same ▸ List.mem_cons_self⟩
        simp only [same]
      · apply List.filter_eq_self.mpr
        intro lower member
        simpa using spared lower (Option.mem_toList.mp member) lower .self
    · rename_i below
      apply List.filter_eq_self.mpr
      intro script listed
      have outside : script ∉ id :: inner := by
        intro member
        rw [tops script listed member, linked.tops found, up] at listed
        exact below listed
      simpa using outside
  case counter =>
    rw [counter_removeAll, vacated.counter]

end

end Arena

namespace Outline

open Search

variable {trim : String → List String} {hidden : String → Prop} {id : String} {new : Option String}
  {block : Block}

theorem flatMap_slot {slot : Option String} (replaced : trim id = new.toList)
    (others : ∀ child, slot = some child → child ≠ id → trim child = [child]) :
    slot.toList.flatMap trim = (exchanged id new slot).toList := by
  cases slot with
  | none => simp [exchanged]
  | some child =>
    by_cases same : child = id
    · simp [exchanged, same, replaced]
    · simp [exchanged, same, others child rfl same]

theorem padded_input {input : Input} (replaced : trim id = new.toList)
    (others : ∀ child, input.block = some child → child ≠ id → trim child = [child])
    (shadows : input.block = some id → ∀ shadow, input.shadow = some shadow → hidden shadow) :
    Padded hidden (input.block.toList.flatMap trim) (input.exchange id new).block.toList := by
  rw [flatMap_slot replaced others, exchanged, Input.exchange]
  split
  · rename_i plugged
    cases new with
    | some child => exact .refl _
    | none =>
      rw [Option.none_or]
      cases shadow : input.shadow with
      | none => exact .nil
      | some child => exact .pad (shadows plugged child shadow) .nil
  · exact .refl _

/-- A block that has exchanged a child refers to what it referred to, the new child being in the place
of the old one; an input may show its shadow. -/
theorem padded_exchange (replaced : trim id = new.toList)
    (others : ∀ child ∈ block.childIds, child ≠ id → trim child = [child])
    (shadows : ∀ input ∈ block.inputs, input.block = some id →
      ∀ shadow, input.shadow = some shadow → hidden shadow) :
    Padded hidden ((references block).flatMap trim) (references (block.exchange id new)) := by
  have inputs : ∀ inputs : List Input, (∀ input ∈ inputs, input ∈ block.inputs) →
      Padded hidden ((inputs.filterMap Input.block).flatMap trim)
        ((inputs.map (Input.exchange id new)).filterMap Input.block) := by
    intro inputs within
    rw [List.filterMap_eq_flatMap_toList, List.filterMap_eq_flatMap_toList]
    induction inputs with
    | nil => exact .nil
    | cons input rest ih =>
      rw [List.map_cons, List.flatMap_cons, List.flatMap_cons, List.flatMap_append]
      have member := within input List.mem_cons_self
      refine .append (padded_input replaced (fun child plugged => ?_) (shadows input member))
        (ih fun other later => within other (List.mem_cons_of_mem _ later))
      exact others child (Block.mem_childIds_of_block member plugged)
  have branches : (Branch.all.filterMap block.branch).flatMap trim =
      Branch.all.filterMap (block.exchange id new).branch := by
    have slots : ∀ branch, (block.branch branch).toList.flatMap trim =
        (exchanged id new (block.branch branch)).toList := fun branch =>
      flatMap_slot replaced fun child head => others child (Block.mem_childIds_of_branch head)
    rw [Block.branches_eq, Block.branches_eq, List.flatMap_append, slots, slots,
      Block.branch_exchange, Block.branch_exchange]
  have below : block.next.toList.flatMap trim = (block.exchange id new).next.toList :=
    flatMap_slot replaced fun child below => others child (Block.mem_childIds_of_next below)
  rw [references, references, List.flatMap_append, List.flatMap_append, branches, below]
  exact ((inputs block.inputs fun _ member => member).append (.refl _)).append (.refl _)

theorem references_eq (block : Block) :
    references block = references { block with next := none } ++ block.next.toList := by
  simp only [references, Option.toList_none, List.append_nil]
  rfl

end Outline

namespace Arena.Deleted

open Forest Search

variable {arena next : Arena} {id : String} {block : Block} {gone ids : List String}

section

variable (deleted : Deleted arena id block gone next)

include deleted

theorem root_mem : id ∈ gone :=
  (deleted.mem_iff id).mpr (.inl rfl)

variable (linked : arena.WellLinked) (found : arena.get? id = some block)

include linked found

/-- What goes along with a block has a parent that goes as well. -/
theorem parent_gone {other : String} (member : other ∈ gone) (different : other ≠ id) :
    ∃ owner ∈ gone, arena.parent? other = some owner := by
  obtain ⟨child, content, above⟩ := ((deleted.mem_iff other).mp member).resolve_left different
  obtain ⟨owner, link, higher⟩ := linked.parent?_of_contents found content above
  refine ⟨owner, (deleted.mem_iff owner).mpr ?_, link⟩
  exact higher.imp_right fun above => ⟨child, content, above⟩

/-- A block that stays owns no block that goes, apart from the deleted one. -/
theorem eq_of_child_gone {owner child : String} (stays : owner ∉ gone)
    (owned : child ∈ arena.childrenAt owner) (member : child ∈ gone) : child = id := by
  by_contra different
  obtain ⟨above, aboveGone, link⟩ := deleted.parent_gone linked found member different
  cases (linked.forest.parent_of_mem owned).symm.trans link
  exact stays aboveGone

/-- What a block owns goes with it, if it is not the deleted one. -/
theorem child_gone {owner child : String} (member : owner ∈ gone) (different : owner ≠ id)
    (owned : child ∈ arena.childrenAt owner) : child ∈ gone ∧ child ≠ id := by
  have link := linked.forest.parent_of_mem owned
  obtain ⟨root, content, above⟩ := ((deleted.mem_iff owner).mp member).resolve_left different
  refine ⟨(deleted.mem_iff child).mpr (.inr ⟨root, content, .step link above⟩), ?_⟩
  rintro rfl
  have rootUp := linked.parent?_of_content found content
  exact (linked.forest.rooted child).not_above_parent link ((Above.of_parent rootUp).trans above)

theorem content_gone {child : String} (content : child ∈ block.contents) :
    child ∈ gone ∧ child ≠ id := by
  refine ⟨(deleted.mem_iff child).mpr (.inr ⟨child, content, .self⟩), ?_⟩
  rintro rfl
  exact (linked.forest.rooted child).ne_parent (linked.parent?_of_content found content) rfl

/-- A block that stays keeps its type, and refers to the block below the deleted one in its place. -/
theorem get?_kept {other : String} {stored : Block} (stays : other ∉ gone)
    (lookup : arena.get? other = some stored) :
    ∃ changed, next.get? other = some changed ∧ changed.opcode = stored.opcode ∧
      Outline.references changed = Outline.references (stored.exchange id block.next) := by
  by_cases isParent : block.parent = some other
  · exact ⟨_, deleted.slot other stored isParent lookup, rfl, rfl⟩
  have same : stored.exchange id block.next = stored :=
    linked.exchange_eq_self lookup (by rwa [parent?_of_get? found])
  rw [same]
  by_cases isLower : block.next = some other
  · refine ⟨_, deleted.below other stored isLower lookup, ?_⟩
    rw [Block.succeed]
    split <;> exact ⟨rfl, rfl⟩
  · exact ⟨stored, (deleted.others other stays isParent isLower).trans lookup, rfl, rfl⟩

/-- No script goes along with a block that has a parent. -/
theorem script_kept {script : String} (placed : block.parent ≠ none)
    (listed : script ∈ arena.scripts) : script ∉ gone := by
  intro member
  by_cases isId : script = id
  · rw [isId, linked.tops found, parent?_of_get? found] at listed
    exact placed listed
  · obtain ⟨owner, -, link⟩ := deleted.parent_gone linked found member isId
    exact linked.not_script_of_parent? link listed

theorem hidden_shadow (solid : ¬arena.IsShadow id) {owner shadow : String} (stays : owner ∉ gone)
    (owned : shadow ∈ arena.childrenAt owner) (isShadow : arena.IsShadow shadow) :
    Hidden next Outline.visible shadow := by
  obtain ⟨leaf, leafFound, kind⟩ := isShadow
  have leafStays : shadow ∉ gone := by
    intro member
    cases deleted.eq_of_child_gone linked found stays owned member
    exact solid ⟨leaf, leafFound, kind⟩
  obtain ⟨changed, lookup, opcode, -⟩ := deleted.get?_kept linked found leafStays leafFound
  exact Outline.hidden_of_shadow lookup (opcode ▸ kind)

/-- The numbers of blocks close up over the ones that are gone. -/
theorem numbering (solid : ¬arena.IsShadow id) (structural : Outline.isStructural block = true)
    (placed : block.parent ≠ none)
    (order : Preorder arena Outline.visible arena.scripts ids) :
    Preorder next Outline.visible next.scripts (ids.filter (· ∉ gone)) := by
  -- The deleted block leaves the one below in its place, and its contents leave nothing.
  let trim (other : String) : List String :=
    if other = id then block.next.toList else if other ∈ gone then [] else [other]
  have replaced : trim id = block.next.toList := if_pos rfl
  have dropped : ∀ other, other ∈ gone ∧ other ≠ id → trim other = [] := by
    rintro other ⟨member, different⟩
    simp only [trim, if_neg different, if_pos member]
  have stays : ∀ other, other ∉ gone → trim other = [other] := by
    intro other outside
    have different : other ≠ id := fun same => outside (same ▸ deleted.root_mem)
    simp only [trim, if_neg different, if_neg outside]
  have scripts : arena.scripts.flatMap trim = next.scripts := by
    have single : arena.scripts.flatMap trim = arena.scripts.flatMap ([·]) :=
      List.flatMap_congr fun script listed =>
        stays script (deleted.script_kept linked found placed listed)
    rw [deleted.scripts, if_neg placed, single, List.flatMap_singleton']
  rw [← scripts]
  apply order.pruned
  · intro other stored lookup outside
    obtain ⟨changed, kept, opcode, references⟩ := deleted.get?_kept linked found outside lookup
    refine ⟨stays other outside, changed, kept, ?_⟩
    rw [Outline.visible_congr opcode, Outline.visible]
    split
    · refine .some ?_
      rw [references]
      apply Outline.padded_exchange replaced
      · intro child owned different
        rw [← childrenAt_of_get? lookup] at owned
        exact stays child fun member =>
          different (deleted.eq_of_child_gone linked found outside owned member)
      · intro input member _ shadow shown
        have isShadow := ((linked.fitted other stored lookup).inputs input member).shadow shadow shown
        have owned := Block.mem_childIds_of_shadow member shown
        rw [← childrenAt_of_get? lookup] at owned
        exact deleted.hidden_shadow linked found solid outside owned isShadow
    · exact .none
  · intro other stored lookup member
    by_cases isId : other = id
    · subst isId
      cases found.symm.trans lookup
      have inner : (Outline.references { block with next := none }).flatMap trim = [] := by
        refine List.flatMap_eq_nil_iff.mpr fun child named => dropped child ?_
        have owned := (Outline.references_sublist_childIds _).subset named
        rw [Block.childIds_setNext_none] at owned
        exact deleted.content_gone linked found owned
      have below : block.next.toList.flatMap trim = block.next.toList := by
        cases down : block.next with
        | none => rfl
        | some lower => simp [stays lower (deleted.spared lower down lower .self)]
      rw [Outline.visible_of_structural structural, replaced, Option.getD_some,
        Outline.references_eq, List.flatMap_append, inner, below, List.nil_append]
    · rw [dropped other ⟨member, isId⟩]
      refine (List.flatMap_eq_nil_iff.mpr fun child named => dropped child ?_).symm
      have owned : child ∈ arena.childrenAt other := by
        apply (Outline.linksAt_sublist_childrenAt arena other).subset
        rwa [linksAt, lookup]
      exact deleted.child_gone linked found member isId owned

end

end Arena.Deleted

namespace Project

open Revision

variable {project : Project} {index : Nat} {target : Target} {id : String} {block : Block}

/-- A block that is no shadow is deleted with its own contents, and all else stays in place. If a
listing numbers the block below its parent, the next one numbers the same blocks in the same order, but
for those that were removed. -/
theorem deleteBlock_removes_contents (required : project.requireEditing = .ok (index, target))
    (linked : target.blocks.WellLinked) (found : target.blocks.get? id = some block)
    (solid : Catalog.kind block.opcode ≠ .shadow) :
    ∃ deletion after, deleteBlock id project = .ok deletion (project.putBlocks index after) ∧
      deletion.opcode = block.opcode ∧ deletion.topLevel = block.topLevel ∧ after.WellLinked ∧
      target.blocks.Deleted id block deletion.removed after ∧
      (block.parent ≠ none → ∀ editor options listing,
        project.listing editor options = .ok listing → id ∈ listing.numbering →
        ∀ editor' options', ∃ later,
          (project.putBlocks index after).listing editor' options' = .ok later ∧
            later.numbering = listing.numbering.filter (· ∉ deletion.removed)) := by
  have notShadow : ¬target.blocks.IsShadow id := Arena.not_isShadow found solid
  obtain ⟨deletion, state, ran, freed, walked, opcode, topLevel⟩ :=
    Arena.delete_freed linked found solid
  have deleted := (freed.vacated linked found).deleted linked found walked
  have afterLinked := (after_of_ok ran).mp (Arena.after_delete linked id)
  refine ⟨deletion, _, (onEditingBlocks_eq_ok_iff required).mpr ⟨_, ran, rfl⟩, opcode, topLevel,
    afterLinked, deleted, ?_⟩
  intro placed editor options listing listed numbered editor' options'
  obtain ⟨shown, listed', shows⟩ := listing_of_required required linked editor options
  cases listed.symm.trans listed'
  have structural : Outline.isStructural block = true := by
    obtain ⟨held, below, heldFound, visible⟩ := ((shows.mem_iff id).mp numbered).shown
    cases found.symm.trans heldFound
    by_contra hidden
    rw [Outline.visible_of_not_structural (by simpa using hidden)] at visible
    cases visible
  obtain ⟨later, laterListed, laterShows⟩ := listing_of_required
    (requireEditing_putBlocks required _) afterLinked editor' options'
  refine ⟨later, laterListed, laterShows.order.unique ?_⟩
  exact deleted.numbering linked found notShadow structural placed shows.order

theorem order_danceArena : Search.Preorder danceArena Outline.visible danceArena.scripts
    ["flag", "loop", "move", "sum", "show", "hide"] := by
  have seen (id : String) (below : List String) {rest inner later : List String}
      (shows : (danceArena.get? id).bind Outline.visible = some below)
      (inside : Search.Preorder danceArena Outline.visible below inner)
      (tail : Search.Preorder danceArena Outline.visible rest later) :
      Search.Preorder danceArena Outline.visible (id :: rest) (id :: inner ++ later) := by
    obtain ⟨block, found, visible⟩ := Option.bind_eq_some_iff.mp shows
    exact .shown found visible inside tail
  have times : danceArena.get? "times" =
      some { opcode := "math_whole_number", parent := some "loop" } := by
    decide +kernel
  have sum := seen "sum" [] (by decide +kernel) .done .done
  have move := seen "move" ["sum"] (by decide +kernel) sum .done
  have hide := seen "hide" [] (by decide +kernel) .done .done
  have reveal := seen "show" ["hide"] (by decide +kernel) hide .done
  have inner := Search.Preorder.hidden times (by decide +kernel) (move.append reveal)
  have loop := seen "loop" ["times", "move", "show"] (by decide +kernel) inner .done
  exact seen "flag" ["loop"] (by decide +kernel) loop .done

/-- The loop goes with its count and the blocks inside it, and the blocks below it stay. -/
theorem deleteBlock_removes_contents_dance :
    danceArena.WellLinked ∧ ∃ deletion after listing later,
      deleteBlock "loop" danceProject = .ok deletion (danceProject.putBlocks 0 after) ∧
      deletion.removed = ["loop", "times", "move", "sum", "steps"] ∧ after.WellLinked ∧
      danceProject.listing Editor.headless {} = .ok listing ∧
      listing.numbering = ["flag", "loop", "move", "sum", "show", "hide"] ∧
      (danceProject.putBlocks 0 after).listing Editor.headless {} = .ok later ∧
      later.numbering = ["flag", "show", "hide"] := by
  have required : danceProject.requireEditing = .ok (0, danceTarget) := rfl
  have ran : deleteBlock "loop" danceProject = .ok
      ⟨"control_repeat", false, ["loop", "times", "move", "sum", "steps"]⟩
      ((deleteBlock "loop").final danceProject) := by
    decide +kernel
  obtain ⟨listing, listed, shows⟩ :=
    listing_of_required required wellLinked_danceArena Editor.headless {}
  have numbering := shows.order.unique order_danceArena
  have found : danceArena.get? "loop" =
      some { opcode := "control_repeat", parent := some "flag", next := some "show"
             inputs := [⟨"TIMES", some "times", some "times"⟩]
             branches := { first := some "move" } } := by
    decide +kernel
  obtain ⟨deletion, after, deleted, -, -, linked, -, renumbers⟩ :=
    deleteBlock_removes_contents required wellLinked_danceArena found (by decide +kernel)
  obtain ⟨rfl, -⟩ := EStateM.Result.ok.inj (deleted.symm.trans ran)
  obtain ⟨later, listedLater, closed⟩ := renumbers (by decide) Editor.headless {} listing listed
    (by rw [numbering]; decide) Editor.headless {}
  rw [numbering] at closed
  exact ⟨wellLinked_danceArena, _, after, listing, later, deleted, rfl, linked, listed, numbering,
    listedLater, closed⟩

end Project

end BlockGraph
