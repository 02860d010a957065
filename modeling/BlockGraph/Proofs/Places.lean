import BlockGraph.Proofs.WellLinked.Projects

/-!
The places of blocks. A block is held by an input, or it is chained: it stands below another block or
at the head of a branch. For each edit there is one statement of the places that it makes, and of the
blocks that get another one below them; all else about places was so before the edit. Conditions on
places are therefore kept by all edits if they are kept by these changes.
-/

set_option autoImplicit false

namespace BlockGraph

theorem Branch.mem_all (branch : Branch) : branch ∈ Branch.all := by
  cases branch <;> decide

theorem Input.mem_childIds_iff {input : Input} {id : String} :
    id ∈ input.childIds ↔ input.block = some id ∨ input.shadow = some id := by
  rw [childIds, List.mem_append, Option.mem_toList, Option.mem_toList, Option.filter_eq_some_iff]
  constructor
  · rintro (plugged | ⟨shadow, -⟩)
    · exact .inl plugged
    · exact .inr shadow
  · rintro (plugged | shadow)
    · exact .inl plugged
    · by_cases plugged : input.block = some id
      · exact .inl plugged
      · exact .inr ⟨shadow, by simpa using plugged⟩

namespace Block

variable {block changed : Block} {id old name : String} {new : Option String}

/-- An input of the block has the other one plugged in or as its shadow. -/
def Holds (block : Block) (id : String) : Prop :=
  ∃ input ∈ block.inputs, input.block = some id ∨ input.shadow = some id

/-- The other block is next below, or at the head of a branch. -/
def Chains (block : Block) (id : String) : Prop :=
  block.next = some id ∨ ∃ branch, block.branch branch = some id

theorem mem_inputs_iff : id ∈ block.inputs.flatMap Input.childIds ↔ block.Holds id := by
  rw [List.mem_flatMap]
  simp only [Input.mem_childIds_iff]
  exact Iff.rfl

theorem mem_chain_iff :
    id ∈ Branch.all.filterMap block.branch ++ block.next.toList ↔ block.Chains id := by
  rw [List.mem_append, List.mem_filterMap, Option.mem_toList, or_comm]
  simp only [Branch.mem_all, true_and]
  exact Iff.rfl

theorem mem_childIds_iff : id ∈ block.childIds ↔ block.Holds id ∨ block.Chains id := by
  rw [childIds, List.append_assoc, List.mem_append, mem_inputs_iff, mem_chain_iff]

theorem not_chains_of_holds (distinct : block.childIds.Nodup) (holds : block.Holds id) :
    ¬block.Chains id := by
  intro chains
  rw [childIds, List.append_assoc, List.nodup_append] at distinct
  exact distinct.2.2 id (mem_inputs_iff.mpr holds) id (mem_chain_iff.mpr chains) rfl

theorem not_owns (childless : block.childIds = []) (id : String) :
    ¬block.Holds id ∧ ¬block.Chains id := by
  have absent : id ∉ block.childIds := by simp [childless]
  rwa [mem_childIds_iff, not_or] at absent

theorem holds_of_replaceChild? (replaced : block.replaceChild? old new = some changed)
    (holds : changed.Holds id) : block.Holds id ∨ new = some id ∧ block.Holds old := by
  rcases replaceChild?_cases replaced with
    ⟨-, rfl⟩ | ⟨branch, -, rfl⟩ | ⟨slot, member, plugged, found, rfl⟩
  · exact .inl holds
  · exact .inl holds
  · obtain ⟨input, inside, held⟩ := holds
    rcases Input.mem_modifyFirst inside with same | ⟨first, isFirst, rfl⟩
    · exact .inl ⟨input, same, held⟩
    · obtain rfl := Option.some.inj (found.symm.trans isFirst)
      rcases held with hit | shadow
      · rcases Option.or_eq_some_iff.mp hit with isNew | ⟨-, shadow⟩
        · exact .inr ⟨isNew, slot, member, .inl plugged⟩
        · exact .inl ⟨slot, member, .inr shadow⟩
      · exact .inl ⟨slot, member, .inr shadow⟩

theorem chains_of_setBranch {branch : Branch} (chains : (block.setBranch branch new).Chains id) :
    block.Chains id ∨ new = some id := by
  rcases chains with below | ⟨other, head⟩
  · exact .inl (.inl below)
  · rw [Block.branch, setBranch, Branches.get_set] at head
    split at head
    · exact .inr head
    · exact .inl (.inr ⟨other, head⟩)

theorem chains_of_replaceChild? (replaced : block.replaceChild? old new = some changed)
    (chains : changed.Chains id) : block.Chains id ∨ new = some id := by
  rcases replaceChild?_cases replaced with
    ⟨-, rfl⟩ | ⟨branch, -, rfl⟩ | ⟨slot, -, -, -, rfl⟩
  · rcases chains with below | head
    · exact .inr below
    · exact .inl (.inr head)
  · exact chains_of_setBranch chains
  · exact .inl chains

theorem next_of_replaceChild? (replaced : block.replaceChild? old new = some changed)
    (extended : changed.next ≠ none) : block.next ≠ none := by
  rcases replaceChild?_cases replaced with
    ⟨below, rfl⟩ | ⟨branch, -, rfl⟩ | ⟨slot, -, -, -, rfl⟩
  · simp [below]
  · exact extended
  · exact extended

/-- What a changed input holds, it held before or has been given. -/
theorem holds_of_withInput {change : Input → Input} {given : String}
    (slots : ∀ slot, (change slot).block = some id ∨ (change slot).shadow = some id →
      (slot.block = some id ∨ slot.shadow = some id) ∨ id = given)
    (holds : (block.withInput name change).Holds id) : block.Holds id ∨ id = given := by
  obtain ⟨input, member, held⟩ := holds
  rcases mem_withInput member with old | rfl
  · exact .inl ⟨input, old, held⟩
  · rcases slots _ held with was | isGiven
    · cases slot : block.input? name with
      | none => simp [slot, Input.empty] at was
      | some input =>
        rw [slot, Option.getD_some] at was
        exact .inl ⟨input, List.mem_of_find?_eq_some slot, was⟩
    · exact .inr isGiven

/-- An input that takes a block keeps what it held as its shadow. -/
theorem holds_of_plug {source : String}
    (holds : (block.withInput name fun slot =>
      { slot with block := some source, shadow := slot.shadow.or slot.block }).Holds id) :
    block.Holds id ∨ id = source := by
  refine holds_of_withInput ?_ holds
  rintro slot (plugged | shadow)
  · exact .inr (Option.some.inj plugged).symm
  · rcases Option.or_eq_some_iff.mp shadow with own | ⟨-, was⟩
    · exact .inl (.inr own)
    · exact .inl (.inl was)

theorem holds_of_plugShadow {shadow : String}
    (holds : (block.withInput name
      ({ · with block := some shadow, shadow := some shadow })).Holds id) :
    block.Holds id ∨ id = shadow := by
  refine holds_of_withInput ?_ holds
  rintro slot (same | same)
  · exact .inr (Option.some.inj same).symm
  · exact .inr (Option.some.inj same).symm

theorem chains_withInput {change : Input → Input} :
    (block.withInput name change).Chains id ↔ block.Chains id := by
  rcases block.withInput_eq name change with ⟨_, -, same⟩ | ⟨-, same⟩ <;> rw [same] <;> exact Iff.rfl

theorem next_withInput {change : Input → Input} :
    (block.withInput name change).next = block.next := by
  rcases block.withInput_eq name change with ⟨_, -, same⟩ | ⟨-, same⟩ <;> rw [same]

end Block

namespace Arena

open Forest Revision

variable {arena middle next : Arena} {id source target : String} {block : Block}

/-- The block stands in an input. -/
def Held (arena : Arena) (id : String) : Prop :=
  ∃ owner block, arena.get? owner = some block ∧ block.Holds id

/-- The block stands below another one, or at the head of a branch. -/
def Chained (arena : Arena) (id : String) : Prop :=
  ∃ owner block, arena.get? owner = some block ∧ block.Chains id

/-- The block next below a stored block. -/
def below? (arena : Arena) (id : String) : Option String :=
  (arena.get? id).bind Block.next

/-- A stored block that starts a script. -/
def IsHat (arena : Arena) (id : String) : Prop :=
  ∃ block, arena.get? id = some block ∧ Catalog.isHat block.opcode = true

/-- A stored block that is not a shadow. -/
def IsSolid (arena : Arena) (id : String) : Prop :=
  ∃ block, arena.get? id = some block ∧ Catalog.kind block.opcode ≠ .shadow

theorem below?_of_get? (found : arena.get? id = some block) : arena.below? id = block.next := by
  simp [below?, found]

theorem Chained.of_below? {lower : String} (below : arena.below? id = some lower) :
    arena.Chained lower := by
  obtain ⟨block, found, next⟩ := Option.bind_eq_some_iff.mp below
  exact ⟨id, block, found, .inl next⟩

theorem mem_childrenAt_of_holds {owner : String} (found : arena.get? owner = some block)
    (holds : block.Holds id) : id ∈ arena.childrenAt owner := by
  exact mem_childrenAt found (Block.mem_childIds_iff.mpr (.inl holds))

theorem mem_childrenAt_of_chains {owner : String} (found : arena.get? owner = some block)
    (chains : block.Chains id) : id ∈ arena.childrenAt owner := by
  exact mem_childrenAt found (Block.mem_childIds_iff.mpr (.inr chains))

/-- A block of a forest has one place at most. -/
theorem WellLinked.not_chained_of_held (linked : arena.WellLinked) (held : arena.Held id) :
    ¬arena.Chained id := by
  rintro ⟨other, chainer, chainerFound, chains⟩
  obtain ⟨owner, block, found, holds⟩ := held
  have up := linked.forest.parent_of_mem (mem_childrenAt_of_holds found holds)
  have up' := linked.forest.parent_of_mem (mem_childrenAt_of_chains chainerFound chains)
  obtain rfl : owner = other := Option.some.inj (up.symm.trans up')
  obtain rfl := Option.some.inj (found.symm.trans chainerFound)
  have distinct : block.childIds.Nodup := by
    rw [← childrenAt_of_get? found]
    exact linked.forest.distinct owner
  exact Block.not_chains_of_holds distinct holds chains

/-- The blocks without a parent are those without a place. -/
theorem WellLinked.parent?_eq_none_iff (linked : arena.WellLinked) :
    arena.parent? id = none ↔ ¬arena.Held id ∧ ¬arena.Chained id := by
  constructor
  · intro free
    constructor
    · rintro ⟨owner, block, found, holds⟩
      have up := linked.forest.parent_of_mem (mem_childrenAt_of_holds found holds)
      rw [free] at up
      cases up
    · rintro ⟨owner, block, found, chains⟩
      have up := linked.forest.parent_of_mem (mem_childrenAt_of_chains found chains)
      rw [free] at up
      cases up
  · rintro ⟨unheld, unchained⟩
    cases up : arena.parent? id with
    | none => rfl
    | some owner =>
      have member := (linked.forest.parent_iff owner id).mp up
      obtain ⟨block, found, owned⟩ := exists_of_mem_childrenAt member
      rcases Block.mem_childIds_iff.mp owned with holds | chains
      · exact absurd ⟨owner, block, found, holds⟩ unheld
      · exact absurd ⟨owner, block, found, chains⟩ unchained

/-- What has a place is stored. -/
theorem WellLinked.found_of_held (linked : arena.WellLinked) (held : arena.Held id) :
    ∃ block, arena.get? id = some block := by
  obtain ⟨owner, block, found, holds⟩ := held
  exact linked.found_of_mem (mem_childrenAt_of_holds found holds)

theorem WellLinked.found_of_chained (linked : arena.WellLinked) (chained : arena.Chained id) :
    ∃ block, arena.get? id = some block := by
  obtain ⟨owner, block, found, chains⟩ := chained
  exact linked.found_of_mem (mem_childrenAt_of_chains found chains)

/-- What may be new after a change: blocks that are held, blocks that are chained, blocks with another
one below them, and shadows. -/
structure Rearranged (held chained extended : String → Prop) (arena next : Arena) : Prop where
  held : ∀ id, next.Held id → arena.Held id ∨ held id
  chained : ∀ id, next.Chained id → arena.Chained id ∨ chained id
  extended : ∀ id, next.below? id ≠ none → arena.below? id ≠ none ∨ extended id
  types : ∀ id block, next.get? id = some block → Catalog.kind block.opcode ≠ .shadow →
    ∃ old, arena.get? id = some old ∧ old.opcode = block.opcode

/-- Nothing about places is new. -/
abbrev Sheds : Arena → Arena → Prop :=
  Rearranged (fun _ => False) (fun _ => False) fun _ => False

namespace Rearranged

variable {held chained extended : String → Prop}

theorem refl (arena : Arena) : Rearranged held chained extended arena arena :=
  ⟨fun _ => .inl, fun _ => .inl, fun _ => .inl, fun _ block found _ => ⟨block, found, rfl⟩⟩

theorem isSolid (moved : Rearranged held chained extended arena next) (isSolid : next.IsSolid id) :
    arena.IsSolid id := by
  obtain ⟨block, found, solid⟩ := isSolid
  obtain ⟨old, lookup, same⟩ := moved.types id block found solid
  exact ⟨old, lookup, same ▸ solid⟩

theorem isHat (moved : Rearranged held chained extended arena next) (isHat : next.IsHat id) :
    arena.IsHat id := by
  obtain ⟨block, found, hat⟩ := isHat
  obtain ⟨old, lookup, same⟩ := moved.types id block found (Catalog.solid_of_isHat hat)
  exact ⟨old, lookup, same ▸ hat⟩

theorem of_get? (moved : Rearranged held chained extended arena middle)
    (same : ∀ id, next.get? id = middle.get? id) : Rearranged held chained extended arena next := by
  refine ⟨fun id => ?_, fun id => ?_, fun id => ?_, fun id => ?_⟩
  · simpa only [Held, same] using moved.held id
  · simpa only [Chained, same] using moved.chained id
  · simpa only [below?, same] using moved.extended id
  · simpa only [same] using moved.types id

theorem modifyBlock (moved : Rearranged held chained extended arena middle)
    {change : Block → Block}
    (holds : ∀ block, middle.get? id = some block → ∀ child, (change block).Holds child →
      block.Holds child ∨ held child)
    (chains : ∀ block, middle.get? id = some block → ∀ child, (change block).Chains child →
      block.Chains child ∨ arena.Chained child ∨ chained child)
    (lengthens : ∀ block, middle.get? id = some block → (change block).next ≠ none →
      block.next ≠ none ∨ extended id)
    (types : ∀ block, (change block).opcode = block.opcode) :
    Rearranged held chained extended arena (middle.modifyBlock id change) := by
  refine { held := ?held, chained := ?chained, extended := ?extended, types := ?types }
  case held =>
    rintro child ⟨owner, stored, lookup, held⟩
    rw [get?_modifyBlock] at lookup
    split at lookup
    · rename_i same
      subst same
      obtain ⟨block, found, rfl⟩ := Option.map_eq_some_iff.mp lookup
      rcases holds block found child held with old | new
      · exact moved.held child ⟨owner, block, found, old⟩
      · exact .inr new
    · exact moved.held child ⟨owner, stored, lookup, held⟩
  case chained =>
    rintro child ⟨owner, stored, lookup, link⟩
    rw [get?_modifyBlock] at lookup
    split at lookup
    · rename_i same
      subst same
      obtain ⟨block, found, rfl⟩ := Option.map_eq_some_iff.mp lookup
      rcases chains block found child link with old | new
      · exact moved.chained child ⟨owner, block, found, old⟩
      · exact new
    · exact moved.chained child ⟨owner, stored, lookup, link⟩
  case extended =>
    intro other longer
    rw [below?, get?_modifyBlock] at longer
    by_cases same : other = id
    · subst same
      rw [if_pos rfl] at longer
      cases found : middle.get? other with
      | none => simp [found] at longer
      | some block =>
        rw [found, Option.map_some, Option.bind_some] at longer
        rcases lengthens block found longer with old | new
        · exact moved.extended other (by rwa [below?_of_get? found])
        · exact .inr new
    · rw [if_neg same] at longer
      exact moved.extended other longer
  case types =>
    intro other stored lookup solid
    rw [get?_modifyBlock] at lookup
    split at lookup
    · obtain ⟨block, found, rfl⟩ := Option.map_eq_some_iff.mp lookup
      rw [types] at solid ⊢
      exact moved.types other block found solid
    · exact moved.types other stored lookup solid

/-- A change that leaves slots and types alone. -/
theorem modifyFrame (moved : Rearranged held chained extended arena middle)
    {change : Block → Block} (slots : ∀ block, (change block).inputs = block.inputs ∧
      (change block).branches = block.branches ∧ (change block).next = block.next)
    (types : ∀ block, (change block).opcode = block.opcode) :
    Rearranged held chained extended arena (middle.modifyBlock id change) := by
  refine moved.modifyBlock ?_ ?_ ?_ types
  · intro block _ child holds
    rw [Block.Holds, (slots block).1] at holds
    exact .inl holds
  · intro block _ child chains
    simp only [Block.Chains, Block.branch, (slots block).2.1, (slots block).2.2] at chains
    exact .inl chains
  · intro block _ extended
    rw [(slots block).2.2] at extended
    exact .inl extended

theorem removeAll (moved : Rearranged held chained extended arena middle) (gone : List String) :
    Rearranged held chained extended arena (middle.removeAll gone) := by
  have kept : ∀ {owner block}, (middle.removeAll gone).get? owner = some block →
      middle.get? owner = some block := by
    intro owner block found
    rw [get?_removeAll] at found
    split at found
    · cases found
    · exact found
  refine ⟨?_, ?_, ?_, ?_⟩
  · rintro child ⟨owner, block, found, holds⟩
    exact moved.held child ⟨owner, block, kept found, holds⟩
  · rintro child ⟨owner, block, found, chains⟩
    exact moved.chained child ⟨owner, block, kept found, chains⟩
  · intro other extended
    apply moved.extended other
    cases found : (middle.removeAll gone).get? other with
    | none => simp [below?, found] at extended
    | some block =>
      rw [below?_of_get? found] at extended
      rw [below?_of_get? (kept found)]
      exact extended
  · intro other block found solid
    exact moved.types other block (kept found) solid

theorem setTopLevel (moved : Rearranged held chained extended arena middle) (topLevel : Bool) :
    Rearranged held chained extended arena (middle.setTopLevel id topLevel) := by
  cases topLevel with
  | false =>
    have framed : Rearranged held chained extended arena (middle.modifyBlock id fun block =>
        { block with topLevel := false, x := none, y := none }) :=
      moved.modifyFrame (fun _ => ⟨rfl, rfl, rfl⟩) fun _ => rfl
    exact framed.of_get? fun _ => rfl
  | true =>
    have framed : Rearranged held chained extended arena (middle.modifyBlock id fun block =>
        { block with topLevel := true, parent := none }) :=
      moved.modifyFrame (fun _ => ⟨rfl, rfl, rfl⟩) fun _ => rfl
    exact framed.of_get? fun _ => rfl

end Rearranged

theorem Sheds.trans (first : Sheds arena middle) (second : Sheds middle next) :
    Sheds arena next where
  held id held := by simpa using first.held id (by simpa using second.held id held)
  chained id chained := by simpa using first.chained id (by simpa using second.chained id chained)
  extended id extended := by
    simpa using first.extended id (by simpa using second.extended id extended)
  types id block found solid := by
    obtain ⟨between, lookup, same⟩ := second.types id block found solid
    rw [← same] at solid ⊢
    exact first.types id between lookup solid

section

variable {held chained extended : String → Prop}

theorem maintains_updateFrame (id : String) {change : Block → Block}
    (slots : ∀ block, (change block).inputs = block.inputs ∧
      (change block).branches = block.branches ∧ (change block).next = block.next)
    (types : ∀ block, (change block).opcode = block.opcode) :
    Maintains (Rearranged held chained extended arena) (update id change) := by
  intro middle moved
  rw [after_update]
  exact ⟨fun _ => moved.modifyFrame slots types, fun _ => moved⟩

/-- The slot of a block may go to one that was chained, as long as it is no input. -/
theorem Rearranged.replaced (moved : Rearranged held chained extended arena middle)
    {old parent : String} {new : Option String} {owner changed : Block}
    (isNew : ∀ id, new = some id → (middle.Held old → held id) ∧ arena.Chained id)
    (found : middle.get? parent = some owner)
    (replaced : owner.replaceChild? old new = some changed) :
    Rearranged held chained extended arena (middle.modifyBlock parent fun _ => changed) := by
  have same : ∀ other, middle.get? parent = some other → other = owner :=
    fun other lookup => Option.some.inj (lookup.symm.trans found)
  -- The change is asked to keep the type of every block, so it leaves the others alone.
  have constant : middle.modifyBlock parent (fun _ => changed) =
      middle.modifyBlock parent fun stored => if stored = owner then changed else stored := by
    apply modifyBlock_congr found
    rw [if_pos rfl]
  rw [constant]
  apply moved.modifyBlock
  · intro other lookup child holds
    obtain rfl := same other lookup
    rw [if_pos rfl] at holds
    rcases Block.holds_of_replaceChild? replaced holds with kept | ⟨given, inside⟩
    · exact .inl kept
    · exact .inr ((isNew child given).1 ⟨parent, other, found, inside⟩)
  · intro other lookup child chains
    obtain rfl := same other lookup
    rw [if_pos rfl] at chains
    rcases Block.chains_of_replaceChild? replaced chains with kept | given
    · exact .inl kept
    · exact .inr (.inl (isNew child given).2)
  · intro other lookup longer
    obtain rfl := same other lookup
    rw [if_pos rfl] at longer
    exact .inl (Block.next_of_replaceChild? replaced longer)
  · intro other
    split
    · rename_i hit
      rw [hit, Block.opcode_of_frame (Block.frame_of_replaceChild? replaced).1]
    · rfl

theorem maintains_unplace (id : String) :
    Maintains (Rearranged held chained extended arena) (unlink id) := by
  apply (Maintains.stored id).bind
  intro block
  cases block.parent with
  | none => exact .pure _
  | some parent =>
    have relinks : Maintains (Rearranged held chained extended arena) (relink parent id none) := by
      intro middle moved
      apply after_relink
      · intro owner changed found replaced
        exact moved.replaced (by simp) found replaced
      · intro _ _
        exact moved
    exact relinks.bind fun _ => maintains_updateFrame id (fun _ => ⟨rfl, rfl, rfl⟩) fun _ => rfl

end

/-- The way down from a block ends there or at a chained one. -/
theorem chained_of_tailFrom {head tail : String} {seen : List String}
    (walked : arena.tailFrom head seen = .ok tail) : tail = head ∨ arena.Chained tail := by
  fun_induction arena.tailFrom head seen with
  | case1 => cases walked
  | case2 => cases walked
  | case3 head seen isNew block found last =>
    cases walked
    exact .inl rfl
  | case4 head seen isNew block found next below ih =>
    rcases ih walked with rfl | chained
    · exact .inr ⟨head, block, found, .inl below⟩
    · exact .inr chained

section

variable {held chained extended : String → Prop}

theorem rearranged_reattach (moved : Rearranged held chained extended arena middle)
    {head : String} {displaced : Option String}
    (was : ∀ id, displaced = some id → arena.Chained id)
    (last : ∀ tail, tail = head ∨ arena.Chained tail ∨ chained tail → extended tail) :
    After (reattach head displaced) middle (fun _ => Rearranged held chained extended arena)
      fun _ _ => True := by
  cases displaced with
  | none => exact moved
  | some lower =>
    simp only [reattach, after_bind, after_get, after_follow, after_update]
    refine ⟨fun tail walked => ?_, fun _ _ => trivial⟩
    have isTail : extended tail := by
      apply last
      rcases chained_of_tailFrom walked with same | chain
      · exact .inl same
      · exact .inr (moved.chained tail chain)
    have longer : Rearranged held chained extended arena
        (middle.modifyBlock tail ({ · with next := some lower })) := by
      apply moved.modifyBlock
      · intro block _ child holds
        exact .inl holds
      · rintro block _ child (below | head)
        · exact .inr (.inl (was child below))
        · exact .inl (.inr head)
      · intro block _ _
        exact .inr isTail
      · intro block
        rfl
    refine ⟨fun _ => ⟨fun _ => ?_, fun _ => trivial⟩, fun _ => trivial⟩
    exact longer.modifyFrame (fun _ => ⟨rfl, rfl, rfl⟩) fun _ => rfl

end

/-- The places that a block gets when it is attached. -/
def Attached (middle : Arena) (source target : String) : Placement → Arena → Prop
  | .stackAfter => Rearranged (fun _ => False) (· = source)
      (fun id => id = target ∨ id = source ∨ middle.Chained id) middle
  | .statementInto _ => Rearranged (fun _ => False) (· = source)
      (fun id => id = source ∨ middle.Chained id) middle
  | .valueInto _ => Rearranged (· = source) (fun _ => False) (fun _ => False) middle

theorem attached_attach (middle : Arena) (source target : String) (placement : Placement) :
    After (attach source target placement) middle
      (fun _ => Attached middle source target placement) fun _ _ => True := by
  rw [attach, after_bind, after_stored]
  refine ⟨fun owner found => ?_, fun _ => trivial⟩
  have same : ∀ other, middle.get? target = some other → other = owner :=
    fun other lookup => Option.some.inj (lookup.symm.trans found)
  cases placement with
  | stackAfter =>
    simp only [after_bind, after_update]
    refine ⟨fun _ => ?_, fun _ => trivial⟩
    apply rearranged_reattach
    · apply (Rearranged.refl middle).modifyBlock
      · intro block _ child holds
        exact .inl holds
      · rintro block _ child (below | head)
        · exact .inr (.inr (Option.some.inj below).symm)
        · exact .inl (.inr head)
      · intro block _ _
        exact .inr (.inl rfl)
      · intro block
        rfl
    · intro lower below
      exact ⟨target, owner, found, .inl below⟩
    · rintro tail (rfl | chain | rfl)
      · exact .inr (.inl rfl)
      · exact .inr (.inr chain)
      · exact .inr (.inl rfl)
  | statementInto input =>
    simp only
    split
    · rename_i branch named
      simp only [after_bind, after_update]
      refine ⟨fun _ => ?_, fun _ => trivial⟩
      apply rearranged_reattach
      · apply (Rearranged.refl middle).modifyBlock
        · intro block _ child holds
          exact .inl holds
        · intro block _ child chains
          rcases Block.chains_of_setBranch chains with old | new
          · exact .inl old
          · exact .inr (.inr (Option.some.inj new).symm)
        · intro block _ longer
          exact .inl longer
        · intro block
          rfl
      · intro lower head
        exact ⟨target, owner, found, .inr ⟨branch, head⟩⟩
      · rintro tail (rfl | chain | rfl)
        · exact .inl rfl
        · exact .inr chain
        · exact .inl rfl
    · exact Rearranged.refl middle
  | valueInto input =>
    rw [after_update]
    refine ⟨fun _ => ?_, fun _ => trivial⟩
    apply (Rearranged.refl middle).modifyBlock
    · intro block _ child holds
      exact Block.holds_of_plug holds
    · intro block _ child chains
      exact .inl (Block.chains_withInput.mp chains)
    · intro block _ longer
      rw [Block.next_withInput] at longer
      exact .inl longer
    · intro block
      exact Block.opcode_of_frame (block.frame_withInput input _)

/-- A block that is connected first loses its place, and then gets another one. -/
theorem attached_connect (linked : arena.WellLinked) (source target : String)
    (placement : Placement) :
    After (connect source target placement) arena
      (fun _ next => ∃ moved middle, arena.get? source = some moved ∧ Suits moved placement ∧
        Sheds arena middle ∧ ¬middle.Held source ∧ Attached middle source target placement next)
      fun _ _ => True := by
  rw [connect, after_bind, after_get, after_bind, after_check]
  refine ⟨fun _ passed => ?_, fun _ _ => trivial⟩
  obtain ⟨moved, owner, subtree, placeable⟩ := placeable_of_check passed
  have solid : ¬arena.IsShadow source := not_isShadow placeable.foundSource placeable.solid
  rw [after_bind]
  apply ((after_unlink linked placeable.foundSource solid).and
    (maintains_unplace source arena (.refl arena))).mono
  · rintro _ free ⟨loosened, shed⟩
    have unheld : ¬free.Held source := by
      rintro ⟨holder, block, found, holds⟩
      have up := loosened.forest.parent_of_mem (mem_childrenAt_of_holds found holds)
      rw [loosened.parents, if_pos rfl] at up
      cases up
    have frames : Sheds free ((free.setTopLevel source false).modifyBlock source
        ({ · with parent := some target })) :=
      ((Rearranged.refl free).setTopLevel false).modifyFrame (fun _ => ⟨rfl, rfl, rfl⟩) fun _ => rfl
    simp only [after_bind, after_markTopLevel, after_update]
    refine ⟨fun _ => ⟨fun _ => ?_, fun _ => trivial⟩, fun _ => trivial⟩
    apply (attached_attach _ source target placement).mono
    · intro _ next attached
      refine ⟨moved, _, placeable.foundSource, placeable.suits, Sheds.trans shed frames, ?_, attached⟩
      intro held
      exact unheld (by simpa using frames.held source held)
    · intro _ _ _
      trivial
  · intro _ _ _
    trivial

theorem sheds_detach (arena : Arena) (id : String) :
    After (detach id) arena (fun _ => Sheds arena) fun _ _ => True := by
  rw [detach, after_bind, after_get, after_bind, after_check]
  refine ⟨fun block _ => ?_, fun _ _ => trivial⟩
  split
  · simp only [after_bind, after_get]
    apply (maintains_unplace id arena (.refl arena)).mono
    · intro _ free shed
      simp only [after_markTopLevel, after_update, after_pure]
      refine ⟨fun _ => ⟨fun _ => ?_, fun _ => trivial⟩, fun _ => trivial⟩
      exact (shed.setTopLevel true).modifyFrame (fun _ => ⟨rfl, rfl, rfl⟩) fun _ => rfl
    · intro _ _ _
      trivial
  · exact .refl arena

/-- A block that has let go of the one below it. -/
theorem Rearranged.released {held chained extended : String → Prop}
    (moved : Rearranged held chained extended arena middle) (id : String) :
    Rearranged held chained extended arena (middle.modifyBlock id ({ · with next := none })) := by
  apply moved.modifyBlock
  · intro block _ child holds
    exact .inl holds
  · rintro block _ child (below | head)
    · cases below
    · exact .inl (.inr head)
  · intro block _ longer
    exact absurd rfl longer
  · intro block
    rfl

/-- The block below one that gives up its place goes there, which is an input only if the other one
was held. -/
theorem Freed.rearranged {state : Arena} (freed : Freed arena id block state)
    (found : arena.get? id = some block) (solid : Catalog.kind block.opcode ≠ .shadow) :
    Rearranged (fun child => arena.below? id = some child ∧ arena.Held id ∧ arena.IsSolid id)
      (fun _ => False) (fun _ => False) arena state := by
  have takes : ∀ child, block.next = some child →
      (arena.Held id → arena.below? id = some child ∧ arena.Held id ∧ arena.IsSolid id) ∧
        arena.Chained child := by
    intro child below
    have lower : arena.below? id = some child := by rw [below?_of_get? found, below]
    exact ⟨fun inside => ⟨lower, inside, block, found, solid⟩, .of_below? lower⟩
  cases freed with
  | replaced _ down ownerFound replaced =>
    exact (Rearranged.refl arena).replaced takes ownerFound (down.symm ▸ replaced)
  | promoted _ down ownerFound replaced =>
    apply Rearranged.released
    refine Rearranged.modifyFrame ?_ (fun _ => ⟨rfl, rfl, rfl⟩) fun _ => rfl
    exact (Rearranged.refl arena).replaced takes ownerFound (down.symm ▸ replaced)
  | alone => exact .refl arena
  | headed =>
    apply Rearranged.released
    refine Rearranged.modifyFrame ?_ (fun _ => ⟨rfl, rfl, rfl⟩) fun _ => rfl
    refine Rearranged.modifyFrame ?_ (fun _ => ⟨rfl, rfl, rfl⟩) fun _ => rfl
    exact (Rearranged.refl arena).setTopLevel true

theorem rearranged_delete (arena : Arena) (id : String) :
    After (delete id) arena
      (fun _ => Rearranged
        (fun child => arena.below? id = some child ∧ arena.Held id ∧ arena.IsSolid id)
        (fun _ => False) (fun _ => False) arena)
      fun _ _ => True := by
  refine (discards_of_delete arena id).mono ?_ fun _ _ _ => trivial
  rintro _ _ ⟨found, solid, freed, -⟩
  exact (freed.rearranged found solid).removeAll _

end Arena

open Arena

/-- Only a new shadow gets a place when a slot is made ready for a write. -/
theorem FieldWrite.Readied.rearranged {arena next : Arena} (readied : Readied arena next) :
    Rearranged (fun id => arena.get? id = none) (fun _ => False) (fun _ => False) arena next := by
  cases readied with
  | kept same => exact (Rearranged.refl arena).of_get? (get?_of_uncounted same)
  | @plugged owner name shadow block leaf found apart empty kind origin lookups scripts =>
    have cases : ∀ other stored, next.get? other = some stored →
        (other = owner ∧ stored = block.withInput name
          ({ · with block := some shadow, shadow := some shadow })) ∨
        arena.get? other = some stored ∨ stored.childIds = [] ∧ stored = leaf := by
      intro other stored lookup
      rw [lookups] at lookup
      split at lookup
      · rename_i isOwner
        exact .inl ⟨isOwner, (Option.some.inj lookup).symm⟩
      · split at lookup
        · rename_i isShadow
          obtain rfl := Option.some.inj lookup
          rcases origin with ⟨old, -⟩ | ⟨-, childless, -⟩
          · exact .inr (.inl (isShadow ▸ old))
          · exact .inr (.inr ⟨childless, rfl⟩)
        · exact .inr (.inl lookup)
    refine ⟨?_, ?_, ?_, ?_⟩
    · rintro child ⟨holder, stored, lookup, holds⟩
      rcases cases holder stored lookup with ⟨rfl, rfl⟩ | old | ⟨none, -⟩
      · rcases Block.holds_of_plugShadow holds with kept | rfl
        · exact .inl ⟨holder, block, found, kept⟩
        · rcases origin with ⟨-, own⟩ | ⟨fresh, -⟩
          · cases slot : block.input? name with
            | none => simp [slot, Input.empty] at own
            | some input =>
              rw [slot, Option.getD_some] at own
              exact .inl ⟨holder, block, found, input, List.mem_of_find?_eq_some slot, .inr own⟩
          · exact .inr fresh
      · exact .inl ⟨holder, stored, old, holds⟩
      · exact absurd holds (Block.not_owns none child).1
    · rintro child ⟨holder, stored, lookup, chains⟩
      rcases cases holder stored lookup with ⟨rfl, rfl⟩ | old | ⟨none, -⟩
      · exact .inl ⟨holder, block, found, Block.chains_withInput.mp chains⟩
      · exact .inl ⟨holder, stored, old, chains⟩
      · exact absurd chains (Block.not_owns none child).2
    · intro other longer
      obtain ⟨lower, below⟩ := Option.ne_none_iff_exists'.mp longer
      obtain ⟨stored, lookup, down⟩ := Option.bind_eq_some_iff.mp below
      rcases cases other stored lookup with ⟨rfl, rfl⟩ | old | ⟨none, -⟩
      · rw [Block.next_withInput] at down
        exact .inl (by simp [below?_of_get? found, down])
      · exact .inl (by simp [below?_of_get? old, down])
      · exact absurd (.inl down) (Block.not_owns none lower).2
    · intro other stored lookup solid
      rcases cases other stored lookup with ⟨rfl, rfl⟩ | old | ⟨-, rfl⟩
      · exact ⟨block, found, (Block.opcode_of_frame (block.frame_withInput name _)).symm⟩
      · exact ⟨stored, old, rfl⟩
      · exact absurd kind solid

namespace NewBlock.Placed

variable {arena middle next : Arena} {spec : Catalog.BlockSpec} {id other : String} {block : Block}
  {shadows : List (String × Block)}

theorem get?_cases (placed : Placed arena spec id block shadows middle next) {stored : Block}
    (found : next.get? other = some stored) :
    other = id ∧ stored = block ∨
      (∃ owner opcode field value, stored = .newShadow owner opcode field value ∧
        ∃ input ∈ spec.inputs, input.kind.shadowOpcode? = some opcode) ∨
      arena.get? other = some stored := by
  by_cases isId : other = id
  · subst isId
    exact .inl ⟨rfl, Option.some.inj (found.symm.trans placed.get?_id)⟩
  · by_cases isShadow : other ∈ shadows.map Prod.fst
    · obtain ⟨entry, member, rfl⟩ := List.mem_map.mp isShadow
      obtain rfl := Option.some.inj (found.symm.trans (placed.get?_shadow member))
      obtain ⟨opcode, field, value, same, declared⟩ := placed.templated.blocks entry member
      exact .inr (.inl ⟨id, opcode, field, value, same, declared⟩)
    · rw [placed.get?_other isId isShadow] at found
      exact .inr (.inr found)

theorem held (placed : Placed arena spec id block shadows middle next) (held : next.Held other) :
    arena.Held other ∨ other ∈ shadows.map Prod.fst := by
  obtain ⟨owner, stored, found, holds⟩ := held
  rcases placed.get?_cases found with ⟨-, rfl⟩ | ⟨_, _, _, _, rfl, -⟩ | old
  · rw [← placed.childIds]
    exact .inr (Block.mem_childIds_iff.mpr (.inl holds))
  · exact absurd holds (Block.not_owns (Block.childIds_newShadow _ _ _ _) other).1
  · exact .inl ⟨owner, stored, old, holds⟩

theorem chained (placed : Placed arena spec id block shadows middle next)
    (chained : next.Chained other) : arena.Chained other := by
  obtain ⟨owner, stored, found, chains⟩ := chained
  rcases placed.get?_cases found with ⟨-, rfl⟩ | ⟨_, _, _, _, rfl, -⟩ | old
  · simp only [Block.Chains, Block.branch, placed.below, placed.branches] at chains
    rcases chains with below | ⟨branch, head⟩
    · cases below
    · cases branch <;> cases head
  · exact absurd chains (Block.not_owns (Block.childIds_newShadow _ _ _ _) other).2
  · exact ⟨owner, stored, old, chains⟩

theorem below?_ne_none (placed : Placed arena spec id block shadows middle next)
    (longer : next.below? other ≠ none) : arena.below? other ≠ none := by
  obtain ⟨lower, below⟩ := Option.ne_none_iff_exists'.mp longer
  obtain ⟨stored, found, down⟩ := Option.bind_eq_some_iff.mp below
  rcases placed.get?_cases found with ⟨-, rfl⟩ | ⟨_, _, _, _, rfl, -⟩ | old
  · rw [placed.below] at down
    cases down
  · cases down
  · simp [below?_of_get? old, down]

/-- The new block is the only one that is not a shadow. -/
theorem get?_solid (placed : Placed arena spec id block shadows middle next)
    (listed : spec ∈ Catalog.specs) {stored : Block} (found : next.get? other = some stored)
    (solid : Catalog.kind stored.opcode ≠ .shadow) : other = id ∨ arena.get? other = some stored := by
  rcases placed.get?_cases found with ⟨isId, -⟩ | ⟨_, opcode, _, _, rfl, input, declared, kind⟩ | old
  · exact .inl isId
  · exact absurd (Catalog.kind_of_mem_shadows
      (Catalog.specs_shadows spec listed input declared opcode kind)) solid
  · exact .inr old

end NewBlock.Placed

namespace Arena

/-- A condition on the places of blocks that the changes of places keep. -/
structure Positional (allowed : Arena → String → String → Placement → Prop)
    (condition : Arena → Prop) : Prop where
  sheds : ∀ {arena next : Arena}, condition arena → Sheds arena next → condition next
  shadowed : ∀ {arena next : Arena}, condition arena →
    Rearranged (fun id => arena.get? id = none) (fun _ => False) (fun _ => False) arena next →
    condition next
  placed : ∀ {arena middle next : Arena} {spec : Catalog.BlockSpec} {id : String} {block : Block}
    {shadows : List (String × Block)}, arena.WellLinked → condition arena → spec ∈ Catalog.specs →
    NewBlock.Placed arena spec id block shadows middle next → condition next
  attached : ∀ {arena middle next : Arena} {source target : String} {placement : Placement}
    {moved : Block}, arena.WellLinked → condition arena → allowed arena source target placement →
    arena.get? source = some moved → Suits moved placement → Sheds arena middle →
    ¬middle.Held source → Attached middle source target placement next → condition next
  promoted : ∀ {arena next : Arena} {id : String}, condition arena →
    Rearranged (fun child => arena.below? id = some child ∧ arena.Held id ∧ arena.IsSolid id)
      (fun _ => False) (fun _ => False) arena next →
    condition next

theorem Positional.lasting {allowed : Arena → String → String → Placement → Prop}
    {condition : Arena → Prop} (positional : Positional allowed condition) :
    Lasting allowed condition where
  uncounted holds same :=
    positional.sheds holds ((Rearranged.refl _).of_get? (get?_of_uncounted same))
  readied linked holds readied := positional.shadowed holds readied.rearranged
  write holds id name field := positional.sheds holds
    ((Rearranged.refl _).modifyFrame (fun _ => ⟨rfl, rfl, rfl⟩) fun _ => rfl)
  placed := positional.placed
  connected := by
    intro arena source target placement linked holds isAllowed
    apply (attached_connect linked source target placement).mono
    · rintro _ next ⟨moved, middle, found, suits, shed, unheld, attached⟩
      exact positional.attached linked holds isAllowed found suits shed unheld attached
    · intro _ _ _
      trivial
  detached id linked holds :=
    (sheds_detach _ id).mono (fun _ _ shed => positional.sheds holds shed) fun _ _ _ => trivial
  deleted id linked holds :=
    (rearranged_delete _ id).mono (fun _ _ moved => positional.promoted holds moved)
      fun _ _ _ => trivial

end Arena

end BlockGraph
