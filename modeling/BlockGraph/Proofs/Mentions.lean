import BlockGraph.Proofs.Dict
import BlockGraph.Proofs.Interruption
import BlockGraph.Proofs.Places

/-!
Who names a block. In an arena whose links are trees each block is named by one slot at most, and a
block that is detached, connected or deleted leaves that slot. The exception is an input that has the
block as its shadow too: it falls back to the very block that is taken from it.
-/

set_option autoImplicit false

namespace BlockGraph

open Forest Revision

/-- Lists that are put together without a repetition have no element in common. -/
theorem Forest.eq_of_mem_flatMap {α : Type} {owners : List α} {children : α → List String}
    (distinct : (owners.flatMap children).Nodup) {first second : α} (firstListed : first ∈ owners)
    (secondListed : second ∈ owners) {id : String} (inFirst : id ∈ children first)
    (inSecond : id ∈ children second) : first = second := by
  have disjoint := (List.nodup_flatMap.mp distinct).2
  have symmetric : Std.Symm (Function.onFun List.Disjoint children) :=
    ⟨fun _ _ apart _ right left => apart left right⟩
  by_contra different
  exact disjoint.forall firstListed secondListed different inFirst inSecond

/-- An input that takes a block which it does not name lets go of one other block at most. -/
theorem Input.exists_swaps_plug {slot : Input} {source : String} (absent : source ∉ slot.childIds) :
    ∃ old, old ≠ some source ∧ Swaps slot.childIds
      ({ slot with block := some source, shadow := slot.shadow.or slot.block } : Input).childIds
      old (some source) := by
  rw [mem_childIds_iff, not_or] at absent
  obtain ⟨notPlugged, notShadow⟩ := absent
  cases plugged : slot.block with
  | none =>
    cases shadow : slot.shadow with
    | none => exact ⟨none, nofun, [], by simp [childIds, plugged, shadow], by simp [childIds]⟩
    | some under =>
      have other : source ≠ under := fun same => notShadow (same ▸ shadow)
      exact ⟨none, nofun, [under], by simp [childIds, plugged, shadow], by simp [childIds, other]⟩
  | some held =>
    have apart : source ≠ held := fun same => notPlugged (same ▸ plugged)
    cases shadow : slot.shadow with
    | none =>
      exact ⟨none, nofun, [held], by simp [childIds, plugged, shadow], by simp [childIds, apart]⟩
    | some under =>
      have other : source ≠ under := fun same => notShadow (same ▸ shadow)
      by_cases own : held = under
      · exact ⟨none, nofun, [under], by simp [childIds, plugged, shadow, own],
          by simp [childIds, other]⟩
      · exact ⟨some held, fun same => apart (Option.some.inj same).symm, [under],
          by simp [childIds, plugged, shadow, own], by simp [childIds, other]⟩

/-- The slot for a placement names a block. -/
def Placement.Names (owner : Block) (id : String) : Placement → Prop
  | .stackAfter => owner.next = some id
  | .statementInto input => (Branch.ofName? input).bind owner.branch = some id
  | .valueInto input => id ∈ ((owner.input? input).getD (Input.empty input)).childIds

theorem Placement.Names.mem {owner : Block} {id : String} {placement : Placement}
    (names : placement.Names owner id) : id ∈ owner.childIds := by
  cases placement with
  | stackAfter => exact Block.mem_childIds_of_next names
  | statementInto input =>
    obtain ⟨branch, -, head⟩ := Option.bind_eq_some_iff.mp names
    exact Block.mem_childIds_of_branch head
  | valueInto input =>
    rw [Names] at names
    cases found : owner.input? input with
    | none =>
      rw [found] at names
      cases names
    | some slot =>
      rw [found, Option.getD_some] at names
      refine Block.mem_childIds_iff.mpr (.inl ⟨slot, List.mem_of_find?_eq_some found, ?_⟩)
      exact Input.mem_childIds_iff.mp names

namespace Block

variable {block changed : Block} {old : String} {new : Option String}

/-- An input of the block holds the other one, and has it as its shadow. -/
def HoldsAsShadow (block : Block) (id : String) : Prop :=
  ∃ input ∈ block.inputs, input.block = some id ∧ input.shadow = some id

theorem HoldsAsShadow.holds {id : String} (own : block.HoldsAsShadow id) : block.Holds id := by
  obtain ⟨input, member, plugged, -⟩ := own
  exact ⟨input, member, .inl plugged⟩

/-- A block that owns no other twice holds it in one input only. -/
theorem eq_of_mem_childIds (distinct : block.childIds.Nodup) {id : String} {first second : Input}
    (firstMember : first ∈ block.inputs) (secondMember : second ∈ block.inputs)
    (inFirst : id ∈ first.childIds) (inSecond : id ∈ second.childIds) : first = second := by
  rw [childIds, List.append_assoc, List.nodup_append] at distinct
  exact Forest.eq_of_mem_flatMap distinct.1 firstMember secondMember inFirst inSecond

/-- Replacing a block leaves the shadows of all inputs. -/
theorem mem_childIds_of_replaced (replaced : block.replaceChild? old new = some changed)
    {input : Input} (member : input ∈ block.inputs) {id : String} (shadow : input.shadow = some id) :
    id ∈ changed.childIds := by
  have shadows : changed.inputs.map Input.shadow = block.inputs.map Input.shadow := by
    rcases replaceChild?_cases replaced with ⟨-, rfl⟩ | ⟨branch, -, rfl⟩ | ⟨slot, -, -, -, rfl⟩
    · rfl
    · rfl
    · exact Input.map_modifyFirst (fun input => input.block = some old)
        (fun input => { input with block := new.or input.shadow }) (fun _ _ => rfl) block.inputs
  have listed : some id ∈ changed.inputs.map Input.shadow := by
    rw [shadows, ← shadow]
    exact List.mem_map_of_mem member
  obtain ⟨kept, inside, same⟩ := List.mem_map.mp listed
  exact mem_childIds_of_shadow inside same

/-- An input that has a block as its shadow too falls back to that block. -/
theorem replaceChild?_eq_self (distinct : block.childIds.Nodup) (own : block.HoldsAsShadow old)
    (replaced : block.replaceChild? old none = some changed) : changed = block := by
  have unchained := not_chains_of_holds distinct own.holds
  obtain ⟨input, member, plugged, shadow⟩ := own
  rcases replaceChild?_cases replaced with
    ⟨below, -⟩ | ⟨branch, head, -⟩ | ⟨slot, listed, held, found, rfl⟩
  · exact absurd (.inl below) unchained
  · exact absurd (.inr ⟨branch, head⟩) unchained
  · have same : slot = input := eq_of_mem_childIds distinct listed member
      (Input.mem_childIds_iff.mpr (.inl held)) (Input.mem_childIds_iff.mpr (.inl plugged))
    subst same
    have kept : Input.modifyFirst (fun input => input.block = some old)
        (fun input => { input with block := none.or input.shadow }) block.inputs = block.inputs := by
      have back : ({ slot with block := none.or slot.shadow } : Input) = slot := by
        have same : slot.block = slot.shadow := plugged.trans shadow.symm
        cases slot
        simp_all
      rcases Input.modifyFirst_cases (fun input => input.block = some old)
          (fun input => { input with block := none.or input.shadow }) block.inputs with
        ⟨before, hit, after, split, -, first, replaced⟩ | ⟨-, same⟩
      · obtain rfl := Option.some.inj (found.symm.trans first)
        rw [replaced, back, ← split]
      · exact same
    rw [kept]

end Block

namespace Arena

variable {arena next : Arena} {id place : String} {block : Block} {change : Block → Block}

/-- How many slots name a block; an input that holds its own shadow is one slot. -/
def mentions (arena : Arena) (id : String) : Nat :=
  (arena.ids.flatMap arena.childrenAt).count id

theorem mentions_eq_zero : arena.mentions id = 0 ↔ ∀ owner, id ∉ arena.childrenAt owner := by
  rw [mentions, List.count_eq_zero, List.mem_flatMap, not_exists]
  constructor
  · intro absent owner member
    obtain ⟨block, found, -⟩ := exists_of_mem_childrenAt member
    exact absent owner ⟨mem_ids_of_get? found, member⟩
  · rintro absent owner ⟨-, member⟩
    exact absent owner member

/-- A block that is named once at most has one owner at most. -/
theorem eq_of_mentions_le_one (once : ∀ id, arena.mentions id ≤ 1) {first second : String}
    (inFirst : id ∈ arena.childrenAt first) (inSecond : id ∈ arena.childrenAt second) :
    first = second := by
  obtain ⟨_, foundFirst, -⟩ := exists_of_mem_childrenAt inFirst
  obtain ⟨_, foundSecond, -⟩ := exists_of_mem_childrenAt inSecond
  exact Forest.eq_of_mem_flatMap (List.nodup_iff_count_le_one.mpr once) (mem_ids_of_get? foundFirst)
    (mem_ids_of_get? foundSecond) inFirst inSecond

theorem mentions_congr (ids : next.ids = arena.ids) (children : next.childrenAt = arena.childrenAt) :
    next.mentions = arena.mentions := by
  funext id
  rw [mentions, ids, children, mentions]

theorem ids_modifyBlock (arena : Arena) (place : String) (change : Block → Block) :
    (arena.modifyBlock place change).ids = arena.ids :=
  Dict.keys_modify arena.blocks place change

theorem mentions_modifyBlock_same (same : ∀ block, (change block).childIds = block.childIds) :
    (arena.modifyBlock place change).mentions = arena.mentions :=
  mentions_congr (ids_modifyBlock arena place change)
    (childrenAt_modifyBlock_same arena place fun block _ => same block)

theorem mentions_setParent (arena : Arena) (place : String) (parent : Option String) :
    (arena.modifyBlock place ({ · with parent := parent })).mentions = arena.mentions :=
  mentions_modifyBlock_same fun _ => rfl

theorem mentions_setPlace (arena : Arena) (place : String) (x y : Option Binary64) :
    (arena.modifyBlock place ({ · with x := x, y := y })).mentions = arena.mentions :=
  mentions_modifyBlock_same fun _ => rfl

theorem mentions_setTopLevel (arena : Arena) (place : String) (topLevel : Bool) :
    (arena.setTopLevel place topLevel).mentions = arena.mentions := by
  refine mentions_congr ?_ (childrenAt_setTopLevel arena place topLevel)
  cases topLevel
  · exact ids_modifyBlock arena place _
  · exact ids_modifyBlock arena place _

/-- Changing one list among many changes the count by what that list has more or less. -/
theorem count_flatMap_of_eq {ids : List String} (distinct : ids.Nodup) (member : place ∈ ids)
    {before after : String → List String}
    (others : ∀ other, other ≠ place → after other = before other) (id : String) :
    (ids.flatMap after).count id + (before place).count id =
      (ids.flatMap before).count id + (after place).count id := by
  induction ids with
  | nil => cases member
  | cons head rest ih =>
    obtain ⟨unlisted, distinct⟩ := List.nodup_cons.mp distinct
    rw [List.flatMap_cons, List.flatMap_cons, List.count_append, List.count_append]
    by_cases hit : head = place
    · subst hit
      have same : rest.flatMap after = rest.flatMap before := by
        rw [List.flatMap_def, List.flatMap_def]
        congr 1
        apply List.map_congr_left
        intro other later
        exact others other fun same => unlisted (same ▸ later)
      rw [same]
      omega
    · have later : place ∈ rest := (List.mem_cons.mp member).resolve_left (Ne.symm hit)
      have counted := ih distinct later
      rw [others head hit]
      omega

theorem count_toList_eq_zero {child : Option String} (apart : child ≠ some id) :
    child.toList.count id = 0 := by
  rw [List.count_eq_zero, Option.mem_toList]
  exact apart

/-- A block that exchanges one child changes by that much how often blocks are named. -/
theorem mentions_modifyBlock (found : arena.get? place = some block) {old new : Option String}
    (swaps : Swaps block.childIds (change block).childIds old new) (id : String) :
    (arena.modifyBlock place change).mentions id + old.toList.count id =
      arena.mentions id + new.toList.count id := by
  have changed := childrenAt_modifyBlock arena found change
  have others : ∀ other, other ≠ place →
      (arena.modifyBlock place change).childrenAt other = arena.childrenAt other := by
    intro other different
    rw [changed, if_neg different]
  have distinct : arena.ids.Nodup := Dict.nodup_keys arena.blocks
  have counted := count_flatMap_of_eq distinct (mem_ids_of_get? found) others id
  rw [changed place, if_pos rfl, childrenAt_of_get? found] at counted
  have exchanged := swaps.count id
  rw [mentions, mentions, ids_modifyBlock]
  omega

/-- A child that a block takes in, in the place of some other one or of none, is named once more. -/
theorem mentions_of_gained (found : arena.get? place = some block) {old : Option String}
    (apart : old ≠ some id) (swaps : Swaps block.childIds (change block).childIds old (some id)) :
    (arena.modifyBlock place change).mentions id = arena.mentions id + 1 := by
  have counted := mentions_modifyBlock found swaps id
  rw [count_toList_eq_zero apart, Option.toList_some, List.count_singleton_self] at counted
  exact counted

/-- Some input holds the block and has it as its shadow. -/
def SelfShadowed (arena : Arena) (id : String) : Prop :=
  ∃ owner block, arena.get? owner = some block ∧ block.HoldsAsShadow id

theorem SelfShadowed.mentions_ne_zero (own : arena.SelfShadowed id) : arena.mentions id ≠ 0 := by
  obtain ⟨owner, holder, found, held⟩ := own
  intro none
  exact mentions_eq_zero.mp none owner (mem_childrenAt_of_holds found held.holds)

namespace Trees

theorem nodup_childIds (trees : arena.Trees) (found : arena.get? id = some block) :
    block.childIds.Nodup := by
  rw [← childrenAt_of_get? found]
  exact trees.forest.distinct id

theorem not_mem_of_top (trees : arena.Trees) (found : arena.get? id = some block)
    (top : block.parent = none) (owner : String) : id ∉ arena.childrenAt owner := by
  intro member
  cases top.symm.trans ((trees.parent_iff id block found owner).mpr member)

theorem not_selfShadowed_of_top (trees : arena.Trees) (found : arena.get? id = some block)
    (top : block.parent = none) : ¬arena.SelfShadowed id := by
  rintro ⟨owner, holder, lookup, own⟩
  exact trees.not_mem_of_top found top owner (mem_childrenAt_of_holds lookup own.holds)

/-- The input that holds a block is one of its parent. -/
theorem selfShadowed_iff (trees : arena.Trees) {parent : String} {owner : Block}
    (up : arena.parent? id = some parent) (found : arena.get? parent = some owner) :
    arena.SelfShadowed id ↔ owner.HoldsAsShadow id := by
  constructor
  · rintro ⟨other, holder, lookup, own⟩
    have member := mem_childrenAt_of_holds lookup own.holds
    cases up.symm.trans (trees.forest.parent_of_mem member)
    cases Option.some.inj (found.symm.trans lookup)
    exact own
  · intro own
    exact ⟨parent, owner, found, own⟩

/-- A block that its parent replaces is named by no other block. -/
theorem not_mem_of_replaced (trees : arena.Trees) {parent : String} {owner changed : Block}
    {new : Option String} (up : arena.parent? id = some parent)
    (found : arena.get? parent = some owner) (replaced : owner.replaceChild? id new = some changed)
    (isNew : ∀ child, new = some child → child ∉ owner.childIds) (own : ¬owner.HoldsAsShadow id)
    (holder : String) : id ∉ (arena.modifyBlock parent fun _ => changed).childrenAt holder := by
  rw [childrenAt_modifyBlock arena found]
  split
  · have apart : ∀ slot ∈ owner.inputs, slot.block = some id → slot.shadow ≠ some id :=
      fun slot member plugged shadow => own ⟨slot, member, plugged, shadow⟩
    have swaps := Block.swaps_of_replaceChild? apart replaced isNew
    rw [swaps.mem_iff (trees.nodup_childIds found)]
    rintro (⟨-, other⟩ | isId)
    · exact other rfl
    · exact isNew id isId (Block.mem_childIds_of_replaceChild? replaced)
  · rename_i different
    intro member
    exact different (Option.some.inj (up.symm.trans (trees.forest.parent_of_mem member))).symm

end Trees

/-- A block that is taken from its parent is named nowhere, unless it is the shadow of its input: then
only its own parent is forgotten. -/
structure Unnamed (arena : Arena) (id : String) (next : Arena) : Prop where
  gone : ¬arena.SelfShadowed id → next.mentions id = 0
  stays : arena.SelfShadowed id → next = arena.modifyBlock id ({ · with parent := none })

theorem unnamed_unlink (trees : arena.Trees) (found : arena.get? id = some block) :
    After (unlink id) arena (fun _ => Unnamed arena id) fun _ _ => True := by
  refine (loosed_of_unlink found).mono ?_ fun _ _ _ => trivial
  intro _ _ loosed
  cases loosed with
  | top up =>
    have top := trees.not_selfShadowed_of_top found up
    refine ⟨fun _ => ?_, fun own => absurd own top⟩
    exact mentions_eq_zero.mpr (trees.not_mem_of_top found up)
  | taken up ownerFound replaced =>
    have link := (parent?_of_get? found).trans up
    refine ⟨fun own => ?_, fun own => ?_⟩
    · rw [trees.selfShadowed_iff link ownerFound] at own
      rw [mentions_setParent]
      exact mentions_eq_zero.mpr (trees.not_mem_of_replaced link ownerFound replaced (by simp) own)
    · rw [trees.selfShadowed_iff link ownerFound] at own
      have same := Block.replaceChild?_eq_self (trees.nodup_childIds ownerFound) own replaced
      rw [same, modifyBlock_eq_self ownerFound rfl]

/-- A block that is detached is named nowhere, unless it is the shadow of its input. -/
theorem mentions_detach (trees : arena.Trees) (id : String) :
    After (detach id) arena (fun _ next => next.mentions id = 0 ↔ ¬arena.SelfShadowed id)
      fun _ _ => True := by
  rw [detach, after_bind, after_get, after_bind, after_check]
  refine ⟨fun block passed => ?_, fun _ _ => trivial⟩
  have found := (movable_eq_ok passed).1
  split
  · rename_i owned
    simp only [after_bind, after_get]
    refine (unnamed_unlink trees found).mono ?_ fun _ _ _ => trivial
    intro _ state unnamed
    rw [after_markTopLevel]
    refine ⟨fun _ => ?_, fun _ => trivial⟩
    rw [after_update]
    refine ⟨fun _ => ?_, fun _ => trivial⟩
    rw [after_pure, mentions_setPlace, mentions_setTopLevel]
    refine ⟨fun none own => ?_, unnamed.gone⟩
    rw [unnamed.stays own, mentions_setParent] at none
    exact own.mentions_ne_zero none
  · rename_i top
    have parentless : block.parent = none := by simpa using top
    rw [after_pure]
    exact iff_of_true (mentions_eq_zero.mpr (trees.not_mem_of_top found parentless))
      (trees.not_selfShadowed_of_top found parentless)

theorem mentions_reattach {state : Arena} {source head : String} {displaced : Option String}
    (apart : displaced ≠ some source) :
    After (reattach head displaced) state
      (fun _ next => next.mentions source = state.mentions source) fun _ _ => True := by
  cases displaced with
  | none => exact rfl
  | some lower =>
    rw [reattach, after_bind, after_get, after_bind, after_follow]
    refine ⟨fun tail walked => ?_, fun _ _ => trivial⟩
    obtain ⟨last, found, below⟩ := last_of_tailFrom walked
    rw [after_bind, after_update]
    refine ⟨fun _ => ?_, fun _ => trivial⟩
    rw [after_update]
    refine ⟨fun _ => ?_, fun _ => trivial⟩
    have hung : (state.modifyBlock tail ({ · with next := some lower })).mentions source +
        last.next.toList.count source =
          state.mentions source + (some lower).toList.count source :=
      mentions_modifyBlock found (last.swaps_next (some lower)) source
    rw [below, count_toList_eq_zero apart, Option.toList_none, List.count_nil] at hung
    rw [mentions_setParent]
    exact hung

/-- A block that is put into a place which does not name it is named once more. -/
theorem mentions_attach {state : Arena} {source target : String} {placement : Placement}
    (absent : ∀ owner, state.get? target = some owner → ¬placement.Names owner source)
    (named : ∀ input, placement = .statementInto input →
      ∃ branch, Branch.ofName? input = some branch) :
    After (attach source target placement) state
      (fun _ next => next.mentions source = state.mentions source + 1) fun _ _ => True := by
  rw [attach, after_bind, after_stored]
  refine ⟨fun owner found => ?_, fun _ => trivial⟩
  have free := absent owner found
  cases placement with
  | stackAfter =>
    rw [after_bind, after_update_of_get? found]
    have hung : (state.modifyBlock target ({ · with next := some source })).mentions source =
        state.mentions source + 1 :=
      mentions_of_gained found free (owner.swaps_next (some source))
    rw [← hung]
    exact mentions_reattach free
  | statementInto input =>
    obtain ⟨branch, isBranch⟩ := named input rfl
    rw [Placement.Names, isBranch, Option.bind_some] at free
    simp only [isBranch]
    rw [after_bind, after_update_of_get? found]
    have hung : (state.modifyBlock target (·.setBranch branch (some source))).mentions source =
        state.mentions source + 1 :=
      mentions_of_gained found free (owner.swaps_setBranch branch (some source))
    rw [← hung]
    exact mentions_reattach free
  | valueInto input =>
    rw [after_update_of_get? found]
    obtain ⟨old, apart, swaps⟩ := Input.exists_swaps_plug free
    exact mentions_of_gained found apart (Block.swaps_withInput swaps)

/-- A place that a block may go to does not name it, even if the block is taken from an input that it
is the shadow of. -/
theorem Placeable.not_names {source target : String} {placement : Placement} {moved owner : Block}
    {subtree : List String} (placeable : arena.Placeable source target placement moved owner subtree)
    (distinct : owner.childIds.Nodup) (own : owner.HoldsAsShadow source) :
    ¬placement.Names owner source := by
  intro names
  have unchained := Block.not_chains_of_holds distinct own.holds
  cases placement with
  | stackAfter => exact unchained (.inl names)
  | statementInto input =>
    obtain ⟨branch, -, head⟩ := Option.bind_eq_some_iff.mp names
    exact unchained (.inr ⟨branch, head⟩)
  | valueInto input =>
    rw [Placement.Names] at names
    obtain ⟨holder, member, plugged, -⟩ := own
    cases found : owner.input? input with
    | none =>
      rw [found] at names
      cases names
    | some slot =>
      rw [found, Option.getD_some] at names
      have same : slot = holder := Block.eq_of_mem_childIds distinct
        (List.mem_of_find?_eq_some found) member names (Input.mem_childIds_iff.mpr (.inl plugged))
      subst same
      have taken : owner.plugged? input = some source :=
        Option.bind_eq_some_iff.mpr ⟨slot, found, plugged⟩
      exact placeable.solid (placeable.isOpen.2 source moved taken placeable.foundSource)

/-- A block that is connected is named once, unless it was the shadow of its old input: then it is
named there too. -/
theorem mentions_connect (trees : arena.Trees) (source target : String) (placement : Placement) :
    After (connect source target placement) arena
      (fun _ next => next.mentions source = 1 ↔ ¬arena.SelfShadowed source) fun _ _ => True := by
  rw [connect, after_bind, after_get, after_bind, after_check]
  refine ⟨fun _ passed => ?_, fun _ _ => trivial⟩
  obtain ⟨moved, owner, subtree, placeable⟩ := placeable_of_check passed
  have apart : target ≠ source := by
    rintro rfl
    exact placeable.outside (root_mem_of_walked placeable.walked)
  rw [after_bind]
  refine (unnamed_unlink trees placeable.foundSource).mono ?_ fun _ _ _ => trivial
  intro _ state unnamed
  rw [after_bind, after_markTopLevel]
  refine ⟨fun _ => ?_, fun _ => trivial⟩
  rw [after_bind, after_update]
  refine ⟨fun _ => ?_, fun _ => trivial⟩
  have absent : ∀ holder, ((state.setTopLevel source false).modifyBlock source
      ({ · with parent := some target })).get? target = some holder →
      ¬placement.Names holder source := by
    intro holder found names
    rw [get?_modifyBlock, if_neg apart, get?_setTopLevel, if_neg apart] at found
    have member : source ∈ state.childrenAt target := mem_childrenAt found names.mem
    by_cases own : arena.SelfShadowed source
    · rw [unnamed.stays own] at found member
      rw [get?_modifyBlock, if_neg apart] at found
      rw [childrenAt_setParent] at member
      rw [trees.selfShadowed_iff (trees.forest.parent_of_mem member) found] at own
      cases Option.some.inj (placeable.foundTarget.symm.trans found)
      exact placeable.not_names (trees.nodup_childIds found) own names
    · exact mentions_eq_zero.mp (unnamed.gone own) target member
  have named : ∀ input, placement = .statementInto input →
      ∃ branch, Branch.ofName? input = some branch := by
    rintro input rfl
    exact placeable.isOpen
  refine (mentions_attach absent named).mono ?_ fun _ _ _ => trivial
  intro _ next counted
  rw [counted, mentions_setParent, mentions_setTopLevel, Nat.add_eq_right]
  refine ⟨fun none own => ?_, unnamed.gone⟩
  rw [unnamed.stays own, mentions_setParent] at none
  exact own.mentions_ne_zero none

/-- What is removed with a block is named by no block that stays, if the block itself is not. -/
theorem mentions_removeAll {gone : List String} (walked : arena.subtreeIds id = .ok gone)
    (once : arena.mentions id = 0 → ∀ other, arena.mentions other ≤ 1) :
    (∀ other ∈ gone, (arena.removeAll gone).mentions other = 0) ↔ arena.mentions id = 0 := by
  constructor
  · intro unnamed
    rw [mentions_eq_zero]
    intro owner member
    have stays : owner ∉ gone := fun met => not_mem_childrenAt_of_walked walked met member
    apply mentions_eq_zero.mp (unnamed id (root_mem_of_walked walked)) owner
    rw [childrenAt_removeAll, if_neg stays]
    exact member
  · intro unnamed other met
    rw [mentions_eq_zero]
    intro owner member
    rw [childrenAt_removeAll] at member
    split at member
    · cases member
    · rename_i stays
      have explores := explores_of_subtreeIds walked
      cases explores.mem_iff_reached.mp met with
      | root isRoot _ =>
        rw [List.mem_singleton.mp isRoot] at member
        exact mentions_eq_zero.mp unnamed owner member
      | @link above _ reached owned _ =>
        rw [linksAt_owned] at owned
        have same := eq_of_mentions_le_one (once unnamed) member owned
        exact stays (same ▸ explores.mem_iff_reached.mpr reached)

/-- A state on the way to the removal of a block: it is named nowhere, unless it is the shadow of its
input, and no other block is named twice, except for the one that takes its place. -/
structure Ousted (arena : Arena) (id : String) (twice : Option String) (state : Arena) : Prop where
  named : state.mentions id = 0 ↔ ¬arena.SelfShadowed id
  once : ¬arena.SelfShadowed id → ∀ other, state.mentions other ≤ 1 + twice.toList.count other

namespace Ousted

variable {state : Arena} {twice : Option String}

theorem congr (ousted : Ousted arena id twice state) (same : next.mentions = state.mentions) :
    Ousted arena id twice next := by
  constructor
  · rw [same]
    exact ousted.named
  · rw [same]
    exact ousted.once

/-- The block lets go of the one below it. -/
theorem setNext (ousted : Ousted arena id block.next state) (found : state.get? id = some block)
    (apart : block.next ≠ some id) :
    Ousted arena id none (state.modifyBlock id ({ · with next := none })) := by
  have counted : ∀ other, (state.modifyBlock id ({ · with next := none })).mentions other +
      block.next.toList.count other =
        state.mentions other + (none : Option String).toList.count other :=
    mentions_modifyBlock found (block.swaps_next none)
  constructor
  · have same := counted id
    rw [count_toList_eq_zero apart, Option.toList_none, List.count_nil, Nat.add_zero,
      Nat.add_zero] at same
    rw [same]
    exact ousted.named
  · intro solid other
    have bound := ousted.once solid other
    have released := counted other
    omega

theorem removed (ousted : Ousted arena id none state) {gone : List String}
    (walked : state.subtreeIds id = .ok gone) :
    id ∈ gone ∧ ((∀ other ∈ gone, (state.removeAll gone).mentions other = 0) ↔
      ¬arena.SelfShadowed id) := by
  rw [← ousted.named]
  refine ⟨root_mem_of_walked walked, mentions_removeAll walked ?_⟩
  intro unnamed other
  simpa using ousted.once (ousted.named.mp unnamed) other

end Ousted

theorem ousted_of_top (trees : arena.Trees) (found : arena.get? id = some block)
    (top : block.parent = none) (twice : Option String) : Ousted arena id twice arena := by
  constructor
  · exact iff_of_true (mentions_eq_zero.mpr (trees.not_mem_of_top found top))
      (trees.not_selfShadowed_of_top found top)
  · intro _ other
    have once : arena.mentions other ≤ 1 := List.nodup_iff_count_le_one.mp trees.once other
    omega

/-- The parent of a block takes the one below it in its place. -/
theorem ousted_of_replaced (trees : arena.Trees) {parent : String} {owner changed : Block}
    (found : arena.get? id = some block) (up : block.parent = some parent)
    (ownerFound : arena.get? parent = some owner)
    (replaced : owner.replaceChild? id block.next = some changed) :
    Ousted arena id block.next (arena.modifyBlock parent fun _ => changed) := by
  have link : arena.parent? id = some parent := (parent?_of_get? found).trans up
  have isNew : ∀ lower, block.next = some lower → lower ∉ owner.childIds := by
    intro lower below member
    have inside : lower ∈ arena.childrenAt id :=
      mem_childrenAt found (Block.mem_childIds_of_next below)
    rw [← childrenAt_of_get? ownerFound] at member
    have same := (trees.forest.parent_of_mem inside).symm.trans (trees.forest.parent_of_mem member)
    exact (trees.forest.rooted id).ne_parent link (Option.some.inj same).symm
  by_cases own : owner.HoldsAsShadow id
  · have isOwn := (trees.selfShadowed_iff link ownerFound).mpr own
    refine ⟨iff_of_false (fun unnamed => ?_) (not_not_intro isOwn), fun solid => absurd isOwn solid⟩
    apply mentions_eq_zero.mp unnamed parent
    rw [childrenAt_modifyBlock arena ownerFound, if_pos rfl]
    obtain ⟨input, member, -, shadow⟩ := own
    exact Block.mem_childIds_of_replaced replaced member shadow
  · have solid : ¬arena.SelfShadowed id := by rwa [trees.selfShadowed_iff link ownerFound]
    have gone := trees.not_mem_of_replaced link ownerFound replaced isNew own
    refine ⟨iff_of_true (mentions_eq_zero.mpr gone) solid, fun _ other => ?_⟩
    have once : arena.mentions other ≤ 1 := List.nodup_iff_count_le_one.mp trees.once other
    have different : ∀ slot ∈ owner.inputs, slot.block = some id → slot.shadow ≠ some id :=
      fun slot member plugged shadow => own ⟨slot, member, plugged, shadow⟩
    have counted : (arena.modifyBlock parent fun _ => changed).mentions other +
        (some id).toList.count other = arena.mentions other + block.next.toList.count other :=
      mentions_modifyBlock ownerFound (Block.swaps_of_replaceChild? different replaced isNew) other
    omega

/-- A block that has given up its place is on the way to its removal. -/
theorem Freed.ousted {state : Arena} (freed : Freed arena id block state) (trees : arena.Trees)
    (found : arena.get? id = some block) : Ousted arena id none state := by
  have apart : block.next ≠ some id := by
    intro below
    have member : id ∈ arena.childrenAt id :=
      mem_childrenAt found (Block.mem_childIds_of_next below)
    exact (trees.forest.rooted id).ne_parent (trees.forest.parent_of_mem member) rfl
  cases freed with
  | replaced up down ownerFound replaced =>
    have ousted := ousted_of_replaced trees found up ownerFound (down.symm ▸ replaced)
    rwa [down] at ousted
  | @promoted parent lower owner changed up down ownerFound replaced =>
    have ousted := ousted_of_replaced trees found up ownerFound (down.symm ▸ replaced)
    have link := (parent?_of_get? found).trans up
    have elsewhere : id ≠ parent := ((trees.forest.rooted id).ne_parent link).symm
    have other : id ≠ lower := fun same => apart (same ▸ down)
    have stored : ((arena.modifyBlock parent fun _ => changed).modifyBlock lower
        ({ · with parent := some parent })).get? id = some block := by
      rw [get?_modifyBlock, if_neg other, get?_modifyBlock, if_neg elsewhere, found]
    exact (ousted.congr (mentions_setParent _ lower (some parent))).setNext stored apart
  | alone up down => exact down ▸ ousted_of_top trees found up block.next
  | @headed lower up down =>
    have ousted := ousted_of_top trees found up block.next
    have other : id ≠ lower := fun same => apart (same ▸ down)
    have stored : (((arena.setTopLevel lower true).modifyBlock lower
        ({ · with x := block.x, y := block.y })).modifyBlock lower
          ({ · with parent := none })).get? id = some block := by
      rw [get?_modifyBlock, if_neg other, get?_modifyBlock, if_neg other, get?_setTopLevel,
        if_neg other, found]
    have moved := ((ousted.congr (mentions_setTopLevel arena lower true)).congr
      (mentions_setPlace _ lower block.x block.y)).congr (mentions_setParent _ lower none)
    exact moved.setNext stored apart

/-- What is removed is named by no block that stays, unless the deleted block is the shadow of its
input. -/
theorem mentions_delete (trees : arena.Trees) (id : String) :
    After (delete id) arena
      (fun deletion next => id ∈ deletion.removed ∧
        ((∀ other ∈ deletion.removed, next.mentions other = 0) ↔ ¬arena.SelfShadowed id))
      fun _ _ => True := by
  refine (discards_of_delete arena id).mono ?_ fun _ _ _ => trivial
  rintro _ _ ⟨found, -, freed, walked⟩
  exact (freed.ousted trees found).removed walked

end Arena

namespace Project

variable {project next : Project} {index : Nat} {target : Target}

/-- A success on the blocks of the editing target, seen from the project. -/
theorem onEditingBlocks_succeeds {α : Type} {change : Revision Arena α} {success : α → Arena → Prop}
    (required : project.requireEditing = .ok (index, target))
    (succeeds : After change target.blocks success fun _ _ => True) {value : α}
    (ended : onEditingBlocks change project = .ok value next) :
    ∃ edited, next.targets[index]? = some edited ∧ success value edited.blocks := by
  have holds : After (onEditingBlocks change) project (fun value next =>
      ∃ edited, next.targets[index]? = some edited ∧ success value edited.blocks)
      fun _ _ => True := by
    rw [onEditingBlocks, after_bind, after_editingIndex]
    refine ⟨fun place same edited => ?_, fun _ _ => trivial⟩
    cases required.symm.trans edited
    have found := (requireEditing_eq_ok required).2
    rw [after_onBlocks_of_get? found]
    refine succeeds.mono (fun value blocks holds => ?_) fun _ _ _ => trivial
    exact ⟨_, get_putBlocks found blocks, holds⟩
  exact (after_of_ok ended).mp holds

/-- Where a block is named after an edit of a target whose links are trees, whatever types its blocks
are of. A detached block is named nowhere, a connected one once, and what goes with a deleted one is
named by no block that stays: all this unless the block was held by an input that has it as its shadow
too, and only then does it fail. -/
theorem edits_mentions (required : project.requireEditing = .ok (index, target))
    (trees : target.blocks.Trees) :
    (∀ id parent next, detachBlocks id project = .ok parent next →
      ∃ edited, next.targets[index]? = some edited ∧
        (edited.blocks.mentions id = 0 ↔ ¬target.blocks.SelfShadowed id)) ∧
    (∀ source owner placement next, connectBlocks source owner placement project = .ok () next →
      ∃ edited, next.targets[index]? = some edited ∧
        (edited.blocks.mentions source = 1 ↔ ¬target.blocks.SelfShadowed source)) ∧
    ∀ id deletion next, deleteBlock id project = .ok deletion next →
      ∃ edited, next.targets[index]? = some edited ∧ id ∈ deletion.removed ∧
        ((∀ other ∈ deletion.removed, edited.blocks.mentions other = 0) ↔
          ¬target.blocks.SelfShadowed id) := by
  refine ⟨?_, ?_, ?_⟩
  · intro id parent next ended
    exact onEditingBlocks_succeeds required (Arena.mentions_detach trees id) ended
  · intro source owner placement next ended
    exact onEditingBlocks_succeeds required
      (Arena.mentions_connect trees source owner placement) ended
  · intro id deletion next ended
    exact onEditingBlocks_succeeds required (Arena.mentions_delete trees id) ended

end Project

namespace Document

/-- A document with a menu in an input, and a block below. -/
def menuDocument : Json :=
  .ofMembers [("targets", .array [.ofMembers
    [("name", .text "Cat"), ("isStage", .bool false),
      ("blocks", .ofMembers
        [("a", .ofMembers
          [("opcode", .text "music_playDrumForBeats"), ("next", .text "b"), ("topLevel", .bool true),
            ("inputs", .ofMembers [("DRUM", .array [.ofNat 1, .text "m"])])]),
          ("b", .ofMembers [("opcode", .text "looks_show"), ("parent", .text "a")]),
          ("m", .ofMembers
            [("opcode", .text "music_menu_DRUM"), ("parent", .text "a"),
              ("shadow", .bool true)])])]])]

def menuArena : Arena where
  blocks := .ofList
    [("a", {
        opcode := "music_playDrumForBeats"
        next := some "b"
        topLevel := true
        inputs := [⟨"DRUM", some "m", some "m"⟩] }),
      ("b", { opcode := "looks_show", parent := some "a" }),
      ("m", { opcode := "music_menu_DRUM", parent := some "a" })]
  scripts := ["a"]

def menuTarget : Target where
  name := "Cat"
  isStage := false
  blocks := menuArena
  rest := .ofList [("name", .text "Cat"), ("isStage", .bool false)]

def menuProject : Project :=
  .ofTargets [menuTarget] ∅

/-- The links of the blocks that are stored are looked at one by one. -/
theorem trees_menuArena : menuArena.Trees := by
  have down : ∀ owner ∈ menuArena.ids, ∀ id ∈ menuArena.childrenAt owner,
      id ∈ menuArena.ids ∧ menuArena.parent? id = some owner := by decide +kernel
  have up : ∀ id ∈ menuArena.ids, ∀ owner ∈ menuArena.parent? id,
      id ∈ menuArena.childrenAt owner := by decide +kernel
  have known : ∀ owner, ∀ id ∈ menuArena.childrenAt owner,
      id ∈ menuArena.ids ∧ menuArena.parent? id = some owner := by
    intro owner id member
    obtain ⟨_, found, -⟩ := Arena.exists_of_mem_childrenAt member
    exact down owner (Arena.mem_ids_of_get? found) id member
  refine ⟨fun owner id member => (known owner id member).1, by decide +kernel, ?_, ?_⟩
  · intro id block found owner
    rw [← Arena.parent?_of_get? found]
    exact ⟨up id (Arena.mem_ids_of_get? found) owner, fun member => (known owner id member).2⟩
  · intro id member
    have ids : menuArena.ids = ["a", "b", "m"] := by decide +kernel
    have top : Forest.Rooted menuArena.parent? "a" := .top (by decide +kernel)
    rw [ids] at member
    rcases List.mem_cons.mp member with rfl | lower
    · exact top
    · have below : menuArena.parent? id = some "a" := by
        rcases List.mem_pair.mp lower with rfl | rfl <;> decide +kernel
      exact .under below top

/-- The block below the menu's owner is named nowhere once it is detached, by its owner only when it
has been put back, and by no block that stays once it is deleted. -/
theorem edits_mentions_show :
    readProject menuDocument = .ok menuProject ∧ menuArena.Trees ∧
      (∃ parent next edited, Project.detachBlocks "b" menuProject = .ok parent next ∧
        next.targets[0]? = some edited ∧ edited.blocks.mentions "b" = 0) ∧
      (∃ next edited, Project.connectBlocks "b" "a" .stackAfter menuProject = .ok () next ∧
        next.targets[0]? = some edited ∧ edited.blocks.mentions "b" = 1) ∧
      ∃ deletion next edited, Project.deleteBlock "b" menuProject = .ok deletion next ∧
        next.targets[0]? = some edited ∧ deletion.removed = ["b"] ∧
        ∀ id ∈ deletion.removed, edited.blocks.mentions id = 0 := by
  have required : menuProject.requireEditing = .ok (0, menuTarget) := rfl
  have solid : ¬menuArena.SelfShadowed "b" := by
    have link : menuArena.parent? "b" = some "a" := by decide +kernel
    intro own
    rw [trees_menuArena.selfShadowed_iff link rfl] at own
    obtain ⟨input, member, plugged, -⟩ := own
    cases List.mem_singleton.mp member
    exact absurd plugged (by decide)
  obtain ⟨detached, connected, deleted⟩ := Project.edits_mentions required trees_menuArena
  refine ⟨by decide +kernel, trees_menuArena, ?_, ?_, ?_⟩
  · have ended : Project.detachBlocks "b" menuProject =
        .ok (some "a") ((Project.detachBlocks "b").final menuProject) := by decide +kernel
    obtain ⟨edited, found, named⟩ := detached _ _ _ ended
    exact ⟨_, _, edited, ended, found, named.mpr solid⟩
  · have ended : Project.connectBlocks "b" "a" .stackAfter menuProject =
        .ok () ((Project.connectBlocks "b" "a" .stackAfter).final menuProject) := by decide +kernel
    obtain ⟨edited, found, named⟩ := connected _ _ _ _ ended
    exact ⟨_, edited, ended, found, named.mpr solid⟩
  · have ended : Project.deleteBlock "b" menuProject =
        .ok ⟨"looks_show", false, ["b"]⟩ ((Project.deleteBlock "b").final menuProject) := by
      decide +kernel
    obtain ⟨edited, found, -, named⟩ := deleted _ _ _ ended
    exact ⟨_, _, edited, ended, found, rfl, named.mpr solid⟩

/-- The menu stays in its input when it is detached, when it is moved to another place and when it is
deleted. -/
theorem menu_stays_named :
    readProject menuDocument = .ok menuProject ∧ menuArena.Trees ∧
      (∃ parent next, Project.detachBlocks "m" menuProject = .ok parent next ∧
        next.targets.map (fun target => target.blocks.mentions "m") = [1]) ∧
      (∃ next, Project.connectBlocks "m" "b" .stackAfter menuProject = .ok () next ∧
        next.targets.map (fun target => target.blocks.mentions "m") = [2]) ∧
      ∃ deletion next, Project.deleteBlock "m" menuProject = .ok deletion next ∧
        deletion.removed = ["m"] ∧
        next.targets.map (fun target => target.blocks.mentions "m") = [1] := by
  refine ⟨by decide +kernel, trees_menuArena,
    ⟨some "a", (Project.detachBlocks "m").final menuProject, ?_⟩,
    ⟨(Project.connectBlocks "m" "b" .stackAfter).final menuProject, ?_⟩,
    ⟨⟨"music_menu_DRUM", false, ["m"]⟩, (Project.deleteBlock "m").final menuProject, ?_⟩⟩
  · decide +kernel
  · decide +kernel
  · decide +kernel

end Document

end BlockGraph
