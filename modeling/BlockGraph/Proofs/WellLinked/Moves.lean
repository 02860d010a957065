import BlockGraph.Proofs.Refusals
import BlockGraph.Proofs.Tidy.Edits
import BlockGraph.Proofs.WellLinked

/-!
Moving blocks keeps an arena well-linked. A block is first taken from its parent, which leaves a
forest with one more root, and then put below another block or made a script. Once the check of a
move has passed no later step fails, so a move that fails was refused and changes nothing.
-/

set_option autoImplicit false

namespace BlockGraph

/-- The input with a block plugged in; it keeps what it showed as its shadow. -/
def Input.plug (source : String) (slot : Input) : Input :=
  { slot with block := some source, shadow := slot.shadow.or slot.block }

namespace Block

/-- The block with another one in a place. -/
def put (owner : Block) (source : String) : Placement → Block
  | .stackAfter => { owner with next := some source }
  | .statementInto input =>
    match Branch.ofName? input with
    | some branch => owner.setBranch branch (some source)
    | none => owner
  | .valueInto input => owner.withInput input (Input.plug source)

/-- Head of the sequence that stands in a place. -/
def displaced? (owner : Block) : Placement → Option String
  | .stackAfter => owner.next
  | .statementInto input => (Branch.ofName? input).bind owner.branch
  | .valueInto _ => none

end Block

namespace Arena

open Forest Revision

variable {arena next : Arena} {id source target : String} {block : Block}

/-- An arena in which one block has been taken from its parent, if it had one. -/
structure Loosened (arena : Arena) (id : String) (next : Arena) : Prop where
  forest : Linked next.childrenAt next.parent?
  fitted : next.Fitted
  parents : ∀ other, next.parent? other = if other = id then none else arena.parent? other
  shadows : next.IsShadow = arena.IsShadow
  scripts : next.scripts = arena.scripts
  found : ∀ other, (∃ block, next.get? other = some block) ↔ ∃ block, arena.get? other = some block
  plugs : ∀ owner block input child, next.get? owner = some block →
    block.plugged? input = some child → arena.IsShadow child ∨
      ∃ old, arena.get? owner = some old ∧ old.plugged? input = some child

/-- What is below the block stays below it, and nothing else comes there. -/
theorem Loosened.above_iff (loosened : Loosened arena id next) (other : String) :
    Above next.parent? id other ↔ Above arena.parent? id other := by
  constructor
  · refine Above.mono fun lower owner link => ?_
    rw [loosened.parents] at link
    split at link
    · cases link
    · exact link
  · intro above
    induction above with
    | self => exact .self
    | @step lower owner up _ ih =>
      by_cases same : lower = id
      · exact same ▸ .self
      · refine .step ?_ ih
        rw [loosened.parents, if_neg same, up]

/-- The parent of a block that is no shadow can exchange it. -/
theorem WellLinked.exists_replaceChild? (linked : arena.WellLinked) {parent : String}
    (solid : ¬arena.IsShadow id) (up : arena.parent? id = some parent) (new : Option String) :
    ∃ owner changed, arena.get? parent = some owner ∧ owner.replaceChild? id new = some changed := by
  have member := (linked.forest.parent_iff parent id).mp up
  obtain ⟨owner, found, owned⟩ := exists_of_mem_childrenAt member
  obtain ⟨changed, replaced⟩ :=
    Block.exists_replaceChild? (linked.fitted parent owner found) owned solid new
  exact ⟨owner, changed, found, replaced⟩

/-- One slot of a block exchanges its block for none. -/
theorem loosened_of_replace (linked : arena.WellLinked) {parent : String} {owner changed : Block}
    (solid : ¬arena.IsShadow id) (up : arena.parent? id = some parent)
    (found : arena.get? parent = some owner)
    (replaced : owner.replaceChild? id none = some changed) :
    Loosened arena id
      ((arena.modifyBlock parent fun _ => changed).modifyBlock id ({ · with parent := none })) := by
  have frame := (Block.frame_of_replaceChild? replaced).1
  have apart : parent ≠ id := (linked.forest.rooted id).ne_parent up
  have fits := linked.fitted parent owner found
  let middle := arena.modifyBlock parent fun _ => changed
  have opcode : ∀ block, arena.get? parent = some block → changed.opcode = block.opcode := by
    intro block lookup
    obtain rfl := Option.some.inj (found.symm.trans lookup)
    exact Block.opcode_of_frame frame
  have middleParents : middle.parent? = arena.parent? := by
    apply parent?_modifyBlock_same
    intro block lookup
    obtain rfl := Option.some.inj (found.symm.trans lookup)
    exact Block.parent_of_frame frame
  have middleShadows : middle.IsShadow = arena.IsShadow := isShadow_modifyBlock opcode
  have middleFitted : middle.Fitted := by
    apply linked.fitted.modifyBlock opcode
    intro block _
    exact Block.fits_replaceChild? fits replaced (by simp)
  obtain ⟨child, childFound⟩ := linked.found_of_mem ((linked.forest.parent_iff parent id).mp up)
  have middleFound : middle.get? id = some child := by
    rw [get?_modifyBlock, if_neg (Ne.symm apart), childFound]
  have parents : ∀ other, (middle.modifyBlock id ({ · with parent := none })).parent? other =
      if other = id then none else arena.parent? other := by
    intro other
    rw [parent?_modifyBlock middle middleFound, middleParents]
  refine { forest := ?forest,
           fitted := middleFitted.modifyFrame (fun _ => rfl) fun _ => ⟨rfl, rfl, rfl⟩,
           parents := parents, shadows := ?shadows, scripts := rfl, found := ?found,
           plugs := ?plugs }
  case forest =>
    have swaps : Swaps (arena.childrenAt parent) (middle.childrenAt parent) (some id) none := by
      rw [childrenAt_of_get? found, childrenAt_modifyBlock arena found, if_pos rfl]
      exact Block.swaps_replaceChild? fits solid replaced (by simp)
    rw [childrenAt_setParent]
    apply linked.forest.swap swaps
    · intro other different
      rw [childrenAt_modifyBlock arena found, if_neg different]
    · intro other
      rw [parents]
      simp [eq_comm]
    · simp
    · simp
  case shadows =>
    rw [isShadow_setParent, middleShadows]
  case found =>
    intro other
    rw [exists_get?_modifyBlock, exists_get?_modifyBlock]
  case plugs =>
    intro holder block input plug lookup plugged
    rw [get?_modifyBlock] at lookup
    split at lookup
    · rename_i same
      subst same
      rw [middleFound] at lookup
      obtain rfl := Option.some.inj lookup
      exact .inr ⟨child, childFound, plugged⟩
    · rw [get?_modifyBlock] at lookup
      split at lookup
      · rename_i same
        subst same
        rw [found] at lookup
        obtain rfl := Option.some.inj lookup
        rcases Block.plugged?_of_replaceChild? fits replaced plugged with shadow | old
        · exact .inl shadow
        · exact .inr ⟨owner, found, old⟩
      · exact .inr ⟨block, lookup, plugged⟩

theorem after_unlink (linked : arena.WellLinked) (found : arena.get? id = some block)
    (solid : ¬arena.IsShadow id) :
    After (unlink id) arena (fun _ next => Loosened arena id next) fun _ _ => False := by
  apply (loosed_of_unlink found).mono
  · intro _ _ loosed
    cases loosed with
    | top up =>
      refine ⟨linked.forest, linked.fitted, ?_, rfl, rfl, fun _ => Iff.rfl, ?_⟩
      · intro other
        by_cases same : other = id
        · simp [same, parent?_of_get? found, up]
        · simp [same]
      · intro owner block input child found plugged
        exact .inr ⟨block, found, plugged⟩
    | taken up ownerFound replaced =>
      exact loosened_of_replace linked solid ((parent?_of_get? found).trans up) ownerFound replaced
  · rintro _ _ ⟨-, parent, up, unowned⟩
    obtain ⟨owner, changed, ownerFound, replaced⟩ :=
      linked.exists_replaceChild? solid ((parent?_of_get? found).trans up) none
    cases (unowned owner ownerFound).symm.trans replaced

/-- A block in the air: it has no parent and is no script. -/
structure Afloat (arena : Arena) (source : String) : Prop where
  forest : Linked arena.childrenAt arena.parent?
  fitted : arena.Fitted
  found : ∃ block, arena.get? source = some block
  solid : ¬arena.IsShadow source
  free : arena.parent? source = none
  unlisted : source ∉ arena.scripts
  tops : ∀ id, id ≠ source → (∃ block, arena.get? id = some block) →
    (id ∈ arena.scripts ↔ arena.parent? id = none)

/-- The arena after a block has been put into a slot, the block that leaves it still in the air. -/
def hung (arena : Arena) (source target : String) (changed : Block) : Arena :=
  (arena.modifyBlock source ({ · with parent := some target })).modifyBlock target fun _ => changed

/-- The arena after a block has been put into a slot, and the block that left it below `tail`. -/
def settled (arena : Arena) (source target : String) (changed : Block) (tail : String) :
    Option String → Arena
  | none => arena.hung source target changed
  | some displaced => ((arena.hung source target changed).modifyBlock tail
      ({ · with next := some displaced })).modifyBlock displaced ({ · with parent := some tail })

/-- A block in the air that goes into a slot of another one, and the block that leaves the slot. -/
structure Hanging (arena : Arena) (source target : String) (owner changed : Block)
    (displaced : Option String) : Prop where
  afloat : arena.Afloat source
  found : arena.get? target = some owner
  outside : ¬Above arena.parent? source target
  frame : changed.frame = owner.frame
  swaps : Swaps owner.childIds changed.childIds displaced (some source)
  fits : changed.Fits arena.IsShadow
  solid : ∀ id, displaced = some id → ¬arena.IsShadow id

theorem exists_get?_hung (arena : Arena) (source target : String) (changed : Block) (id : String) :
    (∃ block, (arena.hung source target changed).get? id = some block) ↔
      ∃ block, arena.get? id = some block := by
  rw [hung, exists_get?_modifyBlock, exists_get?_modifyBlock]

namespace Hanging

variable {owner changed : Block} {displaced : Option String}

theorem get?_target (hanging : arena.Hanging source target owner changed displaced) :
    (arena.modifyBlock source ({ · with parent := some target })).get? target = some owner := by
  have apart : target ≠ source := by
    rintro rfl
    exact hanging.outside .self
  rw [get?_modifyBlock, if_neg apart, hanging.found]

theorem parents (hanging : arena.Hanging source target owner changed displaced) (id : String) :
    (arena.hung source target changed).parent? id =
      if id = source then some target else arena.parent? id := by
  have same : (arena.hung source target changed).parent? =
      (arena.modifyBlock source ({ · with parent := some target })).parent? := by
    apply parent?_modifyBlock_same
    intro block lookup
    obtain rfl := Option.some.inj (hanging.get?_target.symm.trans lookup)
    exact Block.parent_of_frame hanging.frame
  obtain ⟨moved, movedFound⟩ := hanging.afloat.found
  rw [same, parent?_modifyBlock arena movedFound]

theorem children (hanging : arena.Hanging source target owner changed displaced) (id : String) :
    (arena.hung source target changed).childrenAt id =
      if id = target then changed.childIds else arena.childrenAt id := by
  rw [hung, childrenAt_modifyBlock _ hanging.get?_target, childrenAt_setParent]

theorem shadows (hanging : arena.Hanging source target owner changed displaced) :
    (arena.hung source target changed).IsShadow = arena.IsShadow := by
  have first : (arena.modifyBlock source ({ · with parent := some target })).IsShadow =
      arena.IsShadow := isShadow_setParent (some target)
  rw [← first]
  apply isShadow_modifyBlock
  intro block lookup
  obtain rfl := Option.some.inj (hanging.get?_target.symm.trans lookup)
  exact Block.opcode_of_frame hanging.frame

theorem fitted (hanging : arena.Hanging source target owner changed displaced) :
    (arena.hung source target changed).Fitted := by
  have middle : (arena.modifyBlock source ({ · with parent := some target })).Fitted :=
    hanging.afloat.fitted.modifyFrame (fun _ => rfl) fun _ => ⟨rfl, rfl, rfl⟩
  apply middle.modifyBlock
  · intro block lookup
    obtain rfl := Option.some.inj (hanging.get?_target.symm.trans lookup)
    exact Block.opcode_of_frame hanging.frame
  · intro block _
    rw [isShadow_setParent]
    exact hanging.fits

/-- A slot that was free leaves no block in the air. -/
theorem knit (hanging : arena.Hanging source target owner changed none) :
    (arena.hung source target changed).Knit := by
  refine { forest := ?forest, tops := ?tops, fitted := hanging.fitted }
  case forest =>
    have swaps : Swaps (arena.childrenAt target)
        ((arena.hung source target changed).childrenAt target) none (some source) := by
      rw [hanging.children, if_pos rfl, childrenAt_of_get? hanging.found]
      exact hanging.swaps
    apply hanging.afloat.forest.swap swaps
    · intro id different
      rw [hanging.children, if_neg different]
    · intro id
      rw [hanging.parents]
      simp [eq_comm]
    · rintro id ⟨⟩
      exact hanging.afloat.free
    · rintro id ⟨⟩
      exact hanging.outside
  case tops =>
    intro id present
    rw [exists_get?_hung] at present
    rw [hanging.parents]
    by_cases same : id = source
    · simp [same, hung, modifyBlock, hanging.afloat.unlisted]
    · rw [if_neg same]
      exact hanging.afloat.tops id same present

/-- The way down from the moved block ends at a block with nothing below it. -/
theorem exists_tail (hanging : arena.Hanging source target owner changed displaced) :
    ∃ tail block, (arena.hung source target changed).tailOf source = .ok tail ∧
      (arena.hung source target changed).get? tail = some block ∧ block.next = none ∧
      Above arena.parent? source tail := by
  have forest := hanging.afloat.forest
  have others : ∀ id, id ≠ source →
      (arena.hung source target changed).parent? id = arena.parent? id := by
    intro id different
    rw [hanging.parents, if_neg different]
  have placed : (arena.hung source target changed).parent? source = some target := by
    rw [hanging.parents, if_pos rfl]
  have rooted := rooted_of_move forest.rooted others placed hanging.outside
  have down : ∀ owner, ∀ id ∈ (arena.hung source target changed).childrenAt owner,
      (arena.hung source target changed).parent? id = some owner := by
    intro holder id member
    rw [hanging.children] at member
    by_cases isSource : id = source
    · subst isSource
      split at member
      · rename_i same
        rw [same, placed]
      · have up := forest.parent_of_mem member
        rw [hanging.afloat.free] at up
        cases up
    · rw [others id isSource]
      split at member
      · rename_i same
        subst same
        have distinct : owner.childIds.Nodup := by
          rw [← childrenAt_of_get? hanging.found]
          exact forest.distinct holder
        rcases (hanging.swaps.mem_iff distinct id).mp member with ⟨old, -⟩ | isNew
        · rw [← childrenAt_of_get? hanging.found] at old
          exact forest.parent_of_mem old
        · exact absurd (Option.some.inj isNew).symm isSource
      · exact forest.parent_of_mem member
  have present := (exists_get?_hung arena source target changed source).mpr hanging.afloat.found
  obtain ⟨tail, block, walked, found, last, above⟩ := tailOf_of_rooted rooted down present
  refine ⟨tail, block, walked, found, last, above.of_moved_top ?_⟩
  intro id higher different link
  rw [← others id different, link]

/-- The block that leaves the slot goes below the last block of the sequence that took its place. -/
theorem knit_reattached {displaced tail : String} {block : Block}
    (hanging : arena.Hanging source target owner changed (some displaced))
    (found : (arena.hung source target changed).get? tail = some block) (last : block.next = none)
    (below : Above arena.parent? source tail) :
    (((arena.hung source target changed).modifyBlock tail
        ({ · with next := some displaced })).modifyBlock displaced
          ({ · with parent := some tail })).Knit := by
  have forest := hanging.afloat.forest
  have child : displaced ∈ arena.childrenAt target := by
    obtain ⟨kept, before, -⟩ := hanging.swaps
    rw [childrenAt_of_get? hanging.found, before.mem_iff]
    simp
  have up := forest.parent_of_mem child
  have apart : tail ≠ target := by
    rintro rfl
    exact hanging.outside below
  let placed := arena.hung source target changed
  let longer := placed.modifyBlock tail ({ · with next := some displaced })
  let final := longer.modifyBlock displaced ({ · with parent := some tail })
  obtain ⟨low, lowFound, -⟩ := exists_of_parent? up
  obtain ⟨lower, lowerFound⟩ : ∃ block, longer.get? displaced = some block := by
    rw [exists_get?_modifyBlock, exists_get?_hung]
    exact ⟨low, lowFound⟩
  have longerParents : longer.parent? = placed.parent? := placed.parent?_setNext tail _
  have parents : ∀ id, final.parent? id = if id = displaced then some tail
      else if id = source then some target else arena.parent? id := by
    intro id
    rw [parent?_modifyBlock longer lowerFound, longerParents, hanging.parents]
  have finalChildren : final.childrenAt = longer.childrenAt :=
    longer.childrenAt_setParent displaced _
  have children : ∀ id, final.childrenAt id =
      if id = tail then ({ block with next := some displaced } : Block).childIds
      else if id = target then changed.childIds else arena.childrenAt id := by
    intro id
    rw [finalChildren, childrenAt_modifyBlock placed found, hanging.children]
  refine { forest := ?forest, tops := ?tops, fitted := ?fitted }
  case forest =>
    have ownerSwaps : Swaps (arena.childrenAt target) (final.childrenAt target) (some displaced)
        (some source) := by
      rw [children, if_neg (Ne.symm apart), if_pos rfl, childrenAt_of_get? hanging.found]
      exact hanging.swaps
    have tailSwaps : Swaps (arena.childrenAt tail) (final.childrenAt tail) none (some displaced) := by
      have old : arena.childrenAt tail = block.childIds := by
        rw [← childrenAt_of_get? found, hanging.children, if_neg apart]
      rw [children, if_pos rfl, old]
      exact last ▸ block.swaps_next (some displaced)
    refine forest.splice hanging.afloat.free hanging.outside child below ownerSwaps tailSwaps ?_ parents
    intro id notTarget notTail
    rw [children, if_neg notTail, if_neg notTarget]
  case tops =>
    intro id present
    rw [exists_get?_modifyBlock, exists_get?_modifyBlock, exists_get?_hung] at present
    have scripts : final.scripts = arena.scripts := rfl
    rw [parents, scripts]
    by_cases isDisplaced : id = displaced
    · have notSource : id ≠ source := by
        rintro rfl
        rw [← isDisplaced, hanging.afloat.free] at up
        cases up
      rw [if_pos isDisplaced, hanging.afloat.tops id notSource present, isDisplaced, up]
      simp
    · rw [if_neg isDisplaced]
      by_cases isSource : id = source
      · simp [isSource, hanging.afloat.unlisted]
      · rw [if_neg isSource]
        exact hanging.afloat.tops id isSource present
  case fitted =>
    have longerFitted : longer.Fitted := by
      refine hanging.fitted.modifyBlock (fun _ _ => rfl) fun other lookup => ?_
      apply (hanging.fitted tail other lookup).setNext
      rintro id ⟨⟩
      rw [hanging.shadows]
      exact hanging.solid displaced rfl
    exact longerFitted.modifyFrame (fun _ => rfl) fun _ => ⟨rfl, rfl, rfl⟩

/-- The way down from the moved block in the arena that it hangs in, and its last block. -/
structure Tail (arena : Arena) (source target : String) (changed : Block) (tail : String) : Prop where
  walked : (arena.hung source target changed).tailOf source = .ok tail
  last : ∃ block, (arena.hung source target changed).get? tail = some block ∧ block.next = none
  below : Above arena.parent? source tail

/-- Putting a block into a slot ends, with what left the slot below the last block of the sequence
that took its place. -/
theorem after_settled (hanging : arena.Hanging source target owner changed displaced)
    {change : Block → Block} (changes : change owner = changed) :
    After (do
        update target change
        reattach source displaced)
      (arena.modifyBlock source ({ · with parent := some target }))
      (fun _ next => ∃ tail, Tail arena source target changed tail ∧
        next = arena.settled source target changed tail displaced) fun _ _ => False := by
  have same : (arena.modifyBlock source ({ · with parent := some target })).modifyBlock target change =
      arena.hung source target changed := modifyBlock_congr hanging.get?_target changes
  obtain ⟨tail, block, walked, found, last, below⟩ := hanging.exists_tail
  have isTail : Tail arena source target changed tail := ⟨walked, ⟨block, found, last⟩, below⟩
  rw [after_bind, after_update_of_get? hanging.get?_target, same]
  cases displaced with
  | none =>
    rw [reattach, after_pure]
    exact ⟨tail, isTail, rfl⟩
  | some displaced =>
    obtain ⟨kept, before, -⟩ := hanging.swaps
    have child : displaced ∈ arena.childrenAt target := by
      rw [childrenAt_of_get? hanging.found, before.mem_iff]
      simp
    obtain ⟨low, lowFound, -⟩ := exists_of_parent? (hanging.afloat.forest.parent_of_mem child)
    obtain ⟨lower, lowerFound⟩ : ∃ block, ((arena.hung source target changed).modifyBlock tail
        ({ · with next := some displaced })).get? displaced = some block := by
      rw [exists_get?_modifyBlock, exists_get?_hung]
      exact ⟨low, lowFound⟩
    rw [reattach, after_bind, after_get, after_bind, walked, after_follow]
    refine ⟨?_, by simp⟩
    rintro _ ⟨⟩
    rw [after_bind, after_update_of_get? found, after_update_of_get? lowerFound]
    exact ⟨tail, isTail, rfl⟩

theorem knit_settled {tail : String}
    (hanging : arena.Hanging source target owner changed displaced)
    (isTail : Tail arena source target changed tail) :
    (arena.settled source target changed tail displaced).Knit := by
  obtain ⟨-, ⟨block, found, last⟩, below⟩ := isTail
  cases displaced with
  | none => exact hanging.knit
  | some displaced => exact hanging.knit_reattached found last below

end Hanging

/-- A block taken from its parent and struck from the scripts is in the air. -/
theorem Loosened.afloat (loosened : Loosened arena source next) (linked : arena.WellLinked)
    (found : arena.get? source = some block) (solid : ¬arena.IsShadow source) :
    (next.setTopLevel source false).Afloat source := by
  have parents := next.parent?_setTopLevel_false source
  have present : ∀ id, (∃ block, (next.setTopLevel source false).get? id = some block) ↔
      ∃ block, arena.get? id = some block := by
    intro id
    rw [← loosened.found id]
    exact exists_get?_modifyBlock next source _ id
  refine { forest := ?forest, fitted := loosened.fitted.setTopLevel false, found := ?found,
           solid := ?solid, free := ?free, unlisted := ?unlisted, tops := ?tops }
  case forest =>
    rw [parents, childrenAt_setTopLevel]
    exact loosened.forest
  case found =>
    exact (present source).mpr ⟨block, found⟩
  case solid =>
    rw [isShadow_setTopLevel, loosened.shadows]
    exact solid
  case free =>
    rw [parents, loosened.parents, if_pos rfl]
  case unlisted =>
    exact fun listed => (mem_withoutScript.mp listed).2 rfl
  case tops =>
    intro id different stored
    obtain ⟨other, lookup⟩ := (present id).mp stored
    have listed : id ∈ (next.setTopLevel source false).scripts ↔ id ∈ next.scripts := by
      refine mem_withoutScript.trans ?_
      simp [different]
    rw [listed, loosened.scripts, parents, loosened.parents, if_neg different]
    exact linked.tops lookup

/-- The input that takes the moved block keeps the shadow it had. -/
theorem swaps_valueInput {isShadow : String → Prop} {slot : Input} (fits : slot.Fits isShadow)
    (solid : ¬isShadow source) (shadowed : ∀ id, slot.block = some id → isShadow id) :
    Swaps slot.childIds
        ({ slot with block := some source, shadow := slot.shadow.or slot.block } : Input).childIds
        none (some source) ∧
      ({ slot with block := some source, shadow := slot.shadow.or slot.block } : Input).Fits
        isShadow := by
  have different : ∀ id, isShadow id → source ≠ id := by
    rintro id shadow rfl
    exact solid shadow
  have kept : ∀ id, slot.shadow.or slot.block = some id → isShadow id := by
    intro id held
    rcases Option.or_eq_some_iff.mp held with shadow | ⟨-, plugged⟩
    · exact fits.shadow id shadow
    · exact shadowed id plugged
  refine ⟨⟨slot.childIds, by simp, ?_⟩, kept, ?_⟩
  · cases plugged : slot.block with
    | none =>
      cases shadow : slot.shadow with
      | none => simp [Input.childIds, plugged, shadow]
      | some id =>
        have apart := different id (fits.shadow id shadow)
        simp [Input.childIds, plugged, shadow, apart, Option.filter_some]
    | some id =>
      have isShadow := shadowed id plugged
      have apart := different id isShadow
      rcases fits.plugged id plugged isShadow with none | same
      · simp [Input.childIds, plugged, none, apart]
      · simp [Input.childIds, plugged, same, apart, Option.filter_some]
  · rintro id ⟨⟩ shadow
    exact absurd shadow solid

theorem not_above_of_subtree (linked : arena.WellLinked) (found : arena.get? source = some block)
    {subtree : List String} (walked : arena.subtreeIds source = .ok subtree)
    (outside : target ∉ subtree) : ¬Above arena.parent? source target := by
  have stored : ∀ owner, ∀ id ∈ arena.childrenAt owner, ∃ block, arena.get? id = some block :=
    fun _ _ => linked.found_of_mem
  obtain ⟨order, same, below⟩ := subtreeIds_of_linked linked.forest stored ⟨block, found⟩
  obtain rfl : subtree = order := Except.ok.inj (walked.symm.trans same)
  rw [← below]
  exact outside

/-- A block in the air can hang wherever its placement is open. -/
theorem Afloat.hanging {placement : Placement} {owner : Block} (afloat : arena.Afloat source)
    (outside : ¬Above arena.parent? source target) (found : arena.get? target = some owner)
    (valueOpen : ∀ input, placement = .valueInto input → ∀ child,
      owner.plugged? input = some child → arena.IsShadow child)
    (branchOpen : ∀ input, placement = .statementInto input →
      ∃ branch, Branch.ofName? input = some branch) :
    arena.Hanging source target owner (owner.put source placement)
      (owner.displaced? placement) := by
  have fits := afloat.fitted target owner found
  have solid : ∀ id, some source = some id → ¬arena.IsShadow id := by
    rintro id ⟨⟩
    exact afloat.solid
  cases placement with
  | stackAfter =>
    exact ⟨afloat, found, outside, rfl, owner.swaps_next (some source), fits.setNext solid, fits.next⟩
  | statementInto input =>
    obtain ⟨branch, named⟩ := branchOpen input rfl
    simp only [Block.put, Block.displaced?, named, Option.bind_some]
    exact ⟨afloat, found, outside, rfl, owner.swaps_setBranch branch (some source),
      fits.setBranch branch solid, fits.branch branch⟩
  | valueInto input =>
    have shadowed : ∀ id, ((owner.input? input).getD (Input.empty input)).block = some id →
        arena.IsShadow id := by
      intro id plugged
      apply valueOpen input rfl id
      cases slot : owner.input? input with
      | none => simp [slot, Input.empty] at plugged
      | some held => simpa [Block.plugged?, slot] using plugged
    obtain ⟨swaps, slotFits⟩ := swaps_valueInput fits.input afloat.solid shadowed
    exact ⟨afloat, found, outside, owner.frame_withInput input _, Block.swaps_withInput swaps,
      fits.withInput slotFits, by simp [Block.displaced?]⟩

/-- To attach a block is to put it into its place and to hang what stood there below its sequence. -/
theorem after_attach_iff {placement : Placement} {owner : Block}
    (found : arena.get? target = some owner)
    (branchOpen : ∀ input, placement = .statementInto input →
      ∃ branch, Branch.ofName? input = some branch)
    {success : Unit → Arena → Prop} {failure : Fault → Arena → Prop} :
    After (attach source target placement) arena success failure ↔
      After (do
        update target (·.put source placement)
        reattach source (owner.displaced? placement)) arena success failure := by
  rw [attach, after_bind, after_stored_of_get? found]
  cases placement with
  | stackAfter => exact Iff.rfl
  | statementInto input =>
    obtain ⟨branch, named⟩ := branchOpen input rfl
    simp only [named, Block.put, Block.displaced?, Option.bind_some]
  | valueInto input =>
    simp only [Block.put, Block.displaced?, after_bind, reattach, after_pure]
    exact Iff.rfl

/-- A block that has been taken from its parent can hang where its placement has been checked. -/
theorem Loosened.hanging {placement : Placement} {moved owner : Block} {subtree : List String}
    (loosened : Loosened arena source next) (linked : arena.WellLinked)
    (placeable : arena.Placeable source target placement moved owner subtree) :
    ∃ held, next.get? target = some held ∧
      (next.setTopLevel source false).Hanging source target held (held.put source placement)
        (held.displaced? placement) := by
  have solid : ¬arena.IsShadow source := not_isShadow placeable.foundSource placeable.solid
  have outside := not_above_of_subtree linked placeable.foundSource placeable.walked placeable.outside
  have afloat := loosened.afloat linked placeable.foundSource solid
  have stillOutside : ¬Above (next.setTopLevel source false).parent? source target := by
    rw [parent?_setTopLevel_false, loosened.above_iff]
    exact outside
  have apart : target ≠ source := by
    rintro rfl
    exact outside .self
  obtain ⟨held, heldFound⟩ := (loosened.found target).mpr ⟨owner, placeable.foundTarget⟩
  have lookup : (next.setTopLevel source false).get? target = some held := by
    rw [get?_setTopLevel, if_neg apart, heldFound]
  refine ⟨held, heldFound, afloat.hanging stillOutside lookup ?_ ?_⟩
  · rintro input rfl child plugged
    rw [isShadow_setTopLevel, loosened.shadows]
    rcases loosened.plugs target held input child heldFound plugged with shadow | ⟨old, same, inside⟩
    · exact shadow
    · obtain rfl := Option.some.inj (placeable.foundTarget.symm.trans same)
      have owned : child ∈ arena.childrenAt target :=
        mem_childrenAt placeable.foundTarget (Block.mem_childIds_of_plugged? inside)
      obtain ⟨block, found⟩ := linked.found_of_mem owned
      exact ⟨block, found, placeable.isOpen.2 child block inside found⟩
  · rintro input rfl
    exact placeable.isOpen

/-- A block in the air that settles in a place on another one, the block that it displaces below
`tail`. -/
structure Settling (loose : Arena) (source target tail : String) (placement : Placement)
    (owner : Block) : Prop where
  found : loose.get? target = some owner
  hanging : (loose.setTopLevel source false).Hanging source target owner
    (owner.put source placement) (owner.displaced? placement)
  isTail : Hanging.Tail (loose.setTopLevel source false) source target
    (owner.put source placement) tail

/-- A move that has passed its check takes the block from its parent, strikes it from the scripts and
settles it in its place; one that fails was refused and changes nothing. -/
theorem after_connect_settled (linked : arena.WellLinked) (source target : String)
    (placement : Placement) :
    After (connect source target placement) arena
      (fun _ next => ∃ moved loose owner tail, arena.get? source = some moved ∧
        ¬arena.IsShadow source ∧ unlink source arena = .ok () loose ∧
        loose.Settling source target tail placement owner ∧
        next = (loose.setTopLevel source false).settled source target
          (owner.put source placement) tail (owner.displaced? placement))
      fun fault next => next = arena ∧ arena.checkPlacement source target placement = .error fault := by
  rw [connect, after_bind, after_get, after_bind, after_check]
  refine ⟨fun _ passed => ?_, fun fault failed => ⟨rfl, failed⟩⟩
  obtain ⟨moved, owner, subtree, placeable⟩ := placeable_of_check passed
  have solid : ¬arena.IsShadow source := not_isShadow placeable.foundSource placeable.solid
  obtain ⟨⟨⟩, loose, unlinked, loosened⟩ :=
    exists_ok_of_after (after_unlink linked placeable.foundSource solid)
  obtain ⟨held, heldFound, hanging⟩ := loosened.hanging linked placeable
  obtain ⟨block, found⟩ := (loosened.found source).mpr ⟨moved, placeable.foundSource⟩
  obtain ⟨marked, markedFound⟩ := hanging.afloat.found
  have branchOpen : ∀ input, placement = .statementInto input →
      ∃ branch, Branch.ofName? input = some branch := by
    rintro input rfl
    exact placeable.isOpen
  rw [after_bind, after_of_ok unlinked, after_bind, after_markTopLevel_of_get? found, after_bind,
    after_update_of_get? markedFound, after_attach_iff hanging.get?_target branchOpen]
  apply (hanging.after_settled rfl).mono
  · rintro _ _ ⟨tail, isTail, rfl⟩
    exact ⟨moved, loose, held, tail, placeable.foundSource, solid, unlinked,
      ⟨heldFound, hanging, isTail⟩, rfl⟩
  · intro _ _ never
    exact never.elim

/-- A move keeps the links; one that fails was refused and changes nothing. -/
theorem after_connect (linked : arena.WellLinked) (source target : String)
    (placement : Placement) :
    After (connect source target placement) arena (fun _ next => next.WellLinked)
      fun fault next => next = arena ∧ fault.IsRefusal := by
  have walks : ∀ block, arena.get? source = some block →
      ∃ subtree, arena.subtreeIds source = .ok subtree := by
    intro block found
    have stored : ∀ owner, ∀ id ∈ arena.childrenAt owner, ∃ block, arena.get? id = some block :=
      fun _ _ => linked.found_of_mem
    obtain ⟨order, walked, -⟩ := subtreeIds_of_linked linked.forest stored ⟨block, found⟩
    exact ⟨order, walked⟩
  have settles := after_connect_settled linked source target placement
  have tidies := maintains_connect source target placement arena linked.tidy
  apply (settles.and tidies).mono
  · rintro _ _ ⟨⟨_, _, _, _, -, -, -, settling, rfl⟩, tidy⟩
    exact (settling.hanging.knit_settled settling.isTail).wellLinked tidy
  · rintro fault next ⟨⟨same, failed⟩, -⟩
    exact ⟨same, refuses_checkPlacement walks target placement fault failed⟩

/-- A block without a parent becomes a script. -/
theorem Loosened.knit_script (loosened : Loosened arena id next) (linked : arena.WellLinked) :
    (next.setTopLevel id true).Knit := by
  have parents : (next.setTopLevel id true).parent? = next.parent? := by
    funext other
    rw [parent?_setTopLevel]
    by_cases same : other = id
    · simp [same, loosened.parents]
    · simp [same]
  refine { forest := ?forest, tops := ?tops, fitted := loosened.fitted.setTopLevel true }
  case forest =>
    rw [parents, childrenAt_setTopLevel]
    exact loosened.forest
  case tops =>
    intro other stored
    have present : ∃ block, arena.get? other = some block := by
      rw [← loosened.found other]
      exact (exists_get?_modifyBlock next id _ other).mp stored
    have listed : other ∈ (next.setTopLevel id true).scripts ↔ other ∈ next.scripts ∨ other = id :=
      mem_withScript
    rw [listed, loosened.scripts, parents, loosened.parents]
    by_cases same : other = id
    · simp [same]
    · obtain ⟨block, lookup⟩ := present
      simp [same, linked.tops lookup]

theorem Knit.modifyFrame (knit : arena.Knit) {change : Block → Block}
    (same : ∀ block, (change block).opcode = block.opcode ∧ (change block).parent = block.parent)
    (slots : ∀ block, (change block).inputs = block.inputs ∧
      (change block).branches = block.branches ∧ (change block).next = block.next) :
    (arena.modifyBlock id change).Knit := by
  have parents : (arena.modifyBlock id change).parent? = arena.parent? :=
    parent?_modifyBlock_same arena id fun block _ => (same block).2
  have children : (arena.modifyBlock id change).childrenAt = arena.childrenAt := by
    apply childrenAt_modifyBlock_same
    intro block _
    obtain ⟨inputs, branches, next⟩ := slots block
    simp only [Block.childIds_eq, Block.branch, inputs, branches, next]
  refine { forest := ?forest, tops := ?tops,
           fitted := knit.fitted.modifyFrame (fun block => (same block).1) slots }
  case forest =>
    rw [parents, children]
    exact knit.forest
  case tops =>
    intro other stored
    rw [parents]
    exact knit.tops other ((exists_get?_modifyBlock arena id change other).mp stored)

theorem after_detach (linked : arena.WellLinked) (id : String) :
    After (detach id) arena (fun _ next => next.WellLinked)
      fun fault next => next = arena ∧ fault.IsRefusal := by
  have knits : After (detach id) arena (fun _ next => next.Knit)
      fun fault next => next = arena ∧ fault.IsRefusal := by
    rw [detach, after_bind, after_get, after_bind, after_check]
    refine ⟨fun block passed => ?_, fun fault failed =>
      ⟨rfl, refuses_movable arena .source id fault failed⟩⟩
    obtain ⟨found, kind⟩ := movable_eq_ok passed
    have solid : ¬arena.IsShadow id := not_isShadow found kind
    split
    · simp only [after_bind, after_get]
      apply (after_unlink linked found solid).mono
      · intro _ next loosened
        have present := (loosened.found id).mpr ⟨block, found⟩
        have knit := loosened.knit_script linked
        simp only [after_markTopLevel, after_update, after_pure]
        refine ⟨fun _ => ⟨fun _ => ?_, fun missing => ?_⟩, fun missing => ?_⟩
        · exact knit.modifyFrame (fun _ => ⟨rfl, rfl⟩) fun _ => ⟨rfl, rfl, rfl⟩
        · obtain ⟨block, lookup⟩ := present
          simp [get?_setTopLevel, lookup] at missing
        · obtain ⟨block, lookup⟩ := present
          rw [missing] at lookup
          cases lookup
      · intro _ _ never
        exact never.elim
    · exact linked.knit
  apply (knits.and (maintains_detach id arena linked.tidy)).mono
  · rintro _ next ⟨knit, tidy⟩
    exact knit.wellLinked tidy
  · rintro _ next ⟨same, -⟩
    exact same

end Arena

end BlockGraph
