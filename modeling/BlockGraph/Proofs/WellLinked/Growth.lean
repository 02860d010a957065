import BlockGraph.Proofs.WellLinked.Removal

/-!
New shadows keep an arena well-linked, and can be taken back. A shadow that is plugged in for a write
becomes a leaf of the forest; taking it back leaves the arena as it was, except for the numbers that
were spent on ids.
-/

set_option autoImplicit false

namespace BlockGraph

open Forest Revision

namespace Arena

variable {arena next : Arena} {id shadow : String} {block : Block}

/-- The arena without its count of generated ids. -/
def uncounted (arena : Arena) : Arena :=
  { arena with counter := 0 }

theorem uncounted_eq (same : ∀ id, next.get? id = arena.get? id)
    (scripts : next.scripts = arena.scripts) : next.uncounted = arena.uncounted :=
  eq_of_get? same scripts rfl

theorem get?_of_uncounted (same : next.uncounted = arena.uncounted) (id : String) :
    next.get? id = arena.get? id := by
  have lookups : next.uncounted.get? id = arena.uncounted.get? id := by rw [same]
  exact lookups

theorem scripts_of_uncounted (same : next.uncounted = arena.uncounted) :
    next.scripts = arena.scripts := by
  have lists : next.uncounted.scripts = arena.uncounted.scripts := by rw [same]
  exact lists

theorem WellLinked.of_uncounted (linked : arena.WellLinked)
    (same : next.uncounted = arena.uncounted) : next.WellLinked := by
  have kept : arena.uncounted.WellLinked :=
    ⟨linked.stored, linked.once, linked.parent_iff, linked.rooted, linked.top_iff,
      linked.tidy.of_same (fun _ => rfl) rfl, linked.fitted⟩
  rw [← same] at kept
  exact ⟨kept.stored, kept.once, kept.parent_iff, kept.rooted, kept.top_iff,
    kept.tidy.of_same (fun _ => rfl) rfl, kept.fitted⟩

/-- An id that is not stored is no child, no parent and no script. -/
theorem WellLinked.isolated (linked : arena.WellLinked) (fresh : arena.get? id = none) :
    arena.childrenAt id = [] ∧ arena.parent? id = none ∧ id ∉ arena.scripts := by
  refine ⟨by simp [childrenAt, fresh], by simp [parent?, fresh], ?_⟩
  rw [linked.tidy.mem_scripts]
  simp [fresh]

theorem WellLinked.writeField (linked : arena.WellLinked) (id name : String) (field : Field) :
    (arena.modifyBlock id fun block =>
      { block with fields := block.fields.insert name field }).WellLinked := by
  have knit : (arena.modifyBlock id fun block =>
      { block with fields := block.fields.insert name field }).Knit :=
    linked.knit.modifyFrame (fun _ => ⟨rfl, rfl⟩) fun _ => ⟨rfl, rfl, rfl⟩
  apply knit.wellLinked
  refine linked.tidy.modifyBlock fun block found => ⟨?_, rfl⟩
  have tidy := linked.tidy.blocks id block found
  exact ⟨tidy.distinctInputs, tidy.valueInputs, tidy.placed⟩

theorem scripts_insert_below (arena : Arena) (id : String) (below : block.topLevel = false) :
    (arena.insert id block).scripts = arena.scripts := by
  simp [insert, below]

section NewShadow

variable {opcode field value : String}

theorem parent?_insert_newShadow (other : String) :
    (arena.insert shadow (.newShadow id opcode field value)).parent? other =
      if other = shadow then some id else arena.parent? other := by
  rw [parent?, get?_insert]
  by_cases hit : shadow = other
  · simp [hit, Block.newShadow]
  · simp [hit, Ne.symm hit, parent?]

theorem childrenAt_insert_newShadow (fresh : arena.get? shadow = none) (other : String) :
    (arena.insert shadow (.newShadow id opcode field value)).childrenAt other =
      arena.childrenAt other := by
  rw [childrenAt, get?_insert]
  by_cases hit : shadow = other
  · subst hit
    simp [childrenAt, fresh, Block.childIds_newShadow]
  · simp [hit, childrenAt]

theorem isShadow_insert_newShadow (kind : Catalog.kind opcode = .shadow) (other : String) :
    (arena.insert shadow (.newShadow id opcode field value)).IsShadow other ↔
      other = shadow ∨ arena.IsShadow other := by
  rw [IsShadow, get?_insert]
  by_cases hit : shadow = other
  · subst hit
    simp [Block.newShadow, kind]
  · simp [hit, Ne.symm hit, IsShadow]

/-- The shadow is new, so no block owns it yet. -/
theorem WellLinked.fitted_insert_newShadow (linked : arena.WellLinked)
    (fresh : arena.get? shadow = none) (kind : Catalog.kind opcode = .shadow) :
    (arena.insert shadow (.newShadow id opcode field value)).Fitted := by
  intro other kept lookup
  rw [get?_insert] at lookup
  split at lookup
  · obtain rfl := Option.some.inj lookup
    exact Block.fits_newShadow id opcode field value
  · apply (linked.fitted other kept lookup).congr
    intro child member
    rw [← childrenAt_of_get? lookup] at member
    obtain ⟨_, childFound⟩ := linked.found_of_mem member
    rw [isShadow_insert_newShadow kind]
    exact or_iff_right (ne_of_fresh fresh childFound).symm

/-- An input without any block gets a new shadow. -/
theorem WellLinked.knit_newShadow (linked : arena.WellLinked) (found : arena.get? id = some block)
    {name : String} (fresh : arena.get? shadow = none) (kind : Catalog.kind opcode = .shadow)
    (empty : ((block.input? name).getD (Input.empty name)).block = none ∧
      ((block.input? name).getD (Input.empty name)).shadow = none) :
    ((arena.insert shadow (.newShadow id opcode field value)).modifyBlock id
      (·.withInput name ({ · with block := some shadow, shadow := some shadow }))).Knit := by
  have apart : shadow ≠ id := ne_of_fresh fresh found
  obtain ⟨noChildren, noParent, unlisted⟩ := linked.isolated fresh
  let plug : Input → Input := ({ · with block := some shadow, shadow := some shadow })
  let first := arena.insert shadow (.newShadow id opcode field value)
  let second := first.modifyBlock id (·.withInput name plug)
  have parents : ∀ other, second.parent? other =
      if other = shadow then some id else arena.parent? other := by
    intro other
    have same : second.parent? = first.parent? := by
      apply parent?_modifyBlock_same
      intro block _
      exact Block.parent_of_frame (block.frame_withInput name plug)
    rw [same, parent?_insert_newShadow]
  have children : ∀ other, second.childrenAt other =
      if other = id then (block.withInput name plug).childIds else arena.childrenAt other := by
    intro other
    have firstFound : first.get? id = some block := by rw [get?_insert, if_neg apart, found]
    rw [childrenAt_modifyBlock first firstFound, childrenAt_insert_newShadow fresh]
  refine { forest := ?forest, tops := ?tops, fitted := ?fitted }
  case forest =>
    have swaps : Swaps (arena.childrenAt id) (second.childrenAt id) none (some shadow) := by
      rw [children, if_pos rfl, childrenAt_of_get? found]
      apply Block.swaps_withInput
      refine ⟨[], ?_, ?_⟩
      · simp [Input.childIds, empty]
      · simp [Input.childIds, plug]
    apply linked.forest.swap swaps
    · intro other different
      rw [children, if_neg different]
    · intro other
      rw [parents]
      simp [eq_comm]
    · rintro other ⟨⟩
      exact noParent
    · rintro other ⟨⟩ above
      exact apart (linked.forest.eq_of_above noChildren above)
  case tops =>
    intro other stored
    rw [exists_get?_modifyBlock, get?_insert] at stored
    have scripts : first.scripts = arena.scripts := arena.scripts_insert_below shadow (by rfl)
    have same : second.scripts = first.scripts := rfl
    rw [same, scripts, parents]
    by_cases hit : other = shadow
    · simp [hit, unlisted]
    · rw [if_neg hit]
      rw [if_neg (Ne.symm hit)] at stored
      obtain ⟨kept, lookup⟩ := stored
      exact linked.tops lookup
  case fitted =>
    have fitted : first.Fitted := linked.fitted_insert_newShadow fresh kind
    refine fitted.modifyBlock ?_ fun other lookup => ?_
    · intro block _
      exact Block.opcode_of_frame (block.frame_withInput name plug)
    · apply (fitted id other lookup).withInput
      refine ⟨?_, ?_⟩
      · rintro held ⟨⟩
        exact (isShadow_insert_newShadow kind shadow).mpr (.inl rfl)
      · rintro held ⟨⟩ _
        exact .inr rfl

end NewShadow

/-- An input falls back to the shadow that it owns. -/
theorem WellLinked.knit_replug (linked : arena.WellLinked) (found : arena.get? id = some block)
    {slot : Input} (held : block.input? slot.name = some slot) (empty : slot.block = none)
    (own : slot.shadow = some shadow) :
    (arena.modifyBlock id (·.withInput slot.name ({ · with block := some shadow }))).Knit := by
  let plug : Input → Input := ({ · with block := some shadow })
  let changed := arena.modifyBlock id (·.withInput slot.name plug)
  have parents : changed.parent? = arena.parent? := by
    apply parent?_modifyBlock_same
    intro block _
    exact Block.parent_of_frame (block.frame_withInput slot.name plug)
  refine { forest := ?forest, tops := ?tops, fitted := ?fitted }
  case forest =>
    have swaps : Swaps (arena.childrenAt id) (changed.childrenAt id) none none := by
      rw [childrenAt_modifyBlock arena found, if_pos rfl, childrenAt_of_get? found]
      apply Block.swaps_withInput
      rw [held]
      refine ⟨[shadow], ?_, ?_⟩
      · simp [Input.childIds, empty, own]
      · simp [Input.childIds, own, plug]
    apply linked.forest.swap swaps
    · intro other different
      rw [childrenAt_modifyBlock arena found, if_neg different]
    · intro other
      exact (congrFun parents other).trans (by simp)
    · simp
    · simp
  case tops =>
    intro other stored
    rw [exists_get?_modifyBlock] at stored
    obtain ⟨kept, lookup⟩ := stored
    rw [parents]
    exact linked.tops lookup
  case fitted =>
    refine linked.fitted.modifyBlock ?_ fun other lookup => ?_
    · intro block _
      exact Block.opcode_of_frame (block.frame_withInput slot.name plug)
    · obtain rfl := Option.some.inj (found.symm.trans lookup)
      have fits := linked.fitted id block found
      apply fits.withInput
      have slotFits := fits.inputs slot (List.mem_of_find?_eq_some held)
      rw [held]
      refine ⟨slotFits.shadow, ?_⟩
      rintro other ⟨⟩ _
      exact .inr own

end Arena

namespace FieldWrite

open Arena

variable {arena : Arena} {id name shadow : String} {block : Block}

/-- An input as it was found: a new one is missing, any other one is there. -/
def Previous (block : Block) (isNew : Bool) (previous : Input) : Prop :=
  if isNew then block.input? previous.name = none else block.input? previous.name = some previous

/-- The change that puts an input back leaves a block as it was, whether the input was changed
before or not. -/
theorem restores {isNew : Bool} {previous : Input} (was : Previous block isNew previous)
    {changed : Block} {change : Input → Input} (keeps : ∀ input, (change input).name = input.name)
    (from' : changed = block ∨ changed = block.withInput previous.name change) :
    (if isNew then changed.withoutInput previous.name
      else changed.modifyInput previous.name fun _ => previous) = block := by
  unfold Previous at was
  cases isNew with
  | true =>
    rcases from' with rfl | rfl
    · exact Block.withoutInput_self was
    · exact Block.withoutInput_withInput was keeps
  | false =>
    rcases from' with rfl | rfl
    · exact Block.modifyInput_self was
    · exact Block.modifyInput_withInput was keeps

/-- A new shadow is taken back with its input, unless the input named it before. -/
theorem unplug_newShadow (found : arena.get? id = some block)
    {isNew : Bool} {previous : Input} (was : Previous block isNew previous)
    (fresh : arena.get? shadow = none) (unlisted : shadow ∉ arena.scripts)
    {leaf : Block} (below : leaf.topLevel = false) {middle : Arena} {changed : Block}
    {change : Input → Input} (keeps : ∀ input, (change input).name = input.name)
    (from' : changed = block ∨ changed = block.withInput previous.name change)
    (lookups : ∀ other, middle.get? other = if other = id then some changed
      else if other = shadow then some leaf else arena.get? other)
    (scripts : middle.scripts = arena.scripts) :
    (unplug middle ⟨id, shadow, isNew, previous⟩).uncounted =
      (if previous.shadow = some shadow then arena.insert shadow leaf else arena).uncounted := by
  have apart : shadow ≠ id := ne_of_fresh fresh found
  have back := congrArg some (restores was keeps from')
  by_cases kept : previous.shadow = some shadow
  · rw [if_pos kept]
    apply uncounted_eq
    · intro other
      simp only [unplug, kept, if_true]
      rw [get?_modifyBlock, lookups, get?_insert]
      by_cases isOwner : other = id
      · subst isOwner
        simp only [apart, if_true, if_false, Option.map_some, found]
        exact back
      · simp [isOwner, eq_comm]
    · simp only [unplug, kept, if_true, modifyBlock, scripts, scripts_insert_below arena shadow below]
  · rw [if_neg kept]
    apply uncounted_eq
    · intro other
      simp only [unplug, kept, if_false]
      rw [get?_modifyBlock, get?_remove, lookups]
      by_cases isOwner : other = id
      · subst isOwner
        simp only [apart, if_true, if_false, Option.map_some, found]
        exact back
      · by_cases isShadow : shadow = other
        · subst isShadow
          simp [isOwner, fresh]
        · simp [isOwner, isShadow, Ne.symm isShadow]
    · simp only [unplug, kept, if_false, modifyBlock, remove, withoutScript, scripts]
      apply List.filter_eq_self.mpr
      intro script listed
      simp only [ne_eq, decide_eq_true_eq]
      rintro rfl
      exact unlisted listed

/-- A shadow that the input owned stays when the input is put back. -/
theorem unplug_replug (found : arena.get? id = some block) {previous : Input}
    (was : block.input? previous.name = some previous) (own : previous.shadow = some shadow) :
    (unplug (arena.modifyBlock id (·.withInput previous.name ({ · with block := some shadow })))
      ⟨id, shadow, false, previous⟩).uncounted = arena.uncounted := by
  apply uncounted_eq
  · intro other
    simp only [unplug, own, if_true, get?_modifyBlock]
    by_cases isOwner : other = id
    · subst isOwner
      have keeps : ∀ input : Input, ({ input with block := some shadow } : Input).name =
          input.name := fun _ => rfl
      simp only [found, if_true, Option.map_some, Bool.false_eq_true, if_false]
      exact congrArg some (Block.modifyInput_withInput was keeps)
    · simp [isOwner]
  · simp [unplug, own, modifyBlock]

/-- What a slot that is made ready for a write does to the blocks: nothing, or a shadow is plugged
into an input that held no block. The input owns the shadow, or the shadow is new and the input is not
a boolean one. -/
inductive Readied (arena next : Arena) : Prop
  | kept : next.uncounted = arena.uncounted → Readied arena next
  | plugged {owner name shadow : String} {block leaf : Block} : arena.get? owner = some block →
      shadow ≠ owner → ((block.input? name).getD (Input.empty name)).block = none →
      Catalog.kind leaf.opcode = .shadow →
      (arena.get? shadow = some leaf ∧
          ((block.input? name).getD (Input.empty name)).shadow = some shadow ∨
        arena.get? shadow = none ∧ leaf.childIds = [] ∧
          Catalog.isBooleanInput block.opcode name = false) →
      (∀ other, next.get? other =
        if other = owner then some (block.withInput name
          ({ · with block := some shadow, shadow := some shadow }))
        else if other = shadow then some leaf else arena.get? other) →
      next.scripts = arena.scripts → Readied arena next

theorem Readied.of_uncounted {counted next : Arena} (readied : Readied counted next)
    (same : counted.uncounted = arena.uncounted) : Readied arena next := by
  have lookups := get?_of_uncounted same
  cases readied with
  | kept kept => exact .kept (kept.trans same)
  | plugged found apart empty kind origin gets lists =>
    simp only [lookups] at found origin gets
    exact .plugged found apart empty kind origin gets (lists.trans (scripts_of_uncounted same))

/-- A slot that has been made ready for a write, and how to take that back. -/
structure Resolved (arena : Arena) (slot : Slot) (next : Arena) : Prop where
  knit : next.Knit
  readied : Readied arena next
  found : ∃ block, next.get? slot.block = some block
  kept : slot.plug = none → next = arena
  undone : ∀ plug, slot.plug = some plug → (unplug next plug).uncounted = arena.uncounted

theorem get?_insert_newShadow (found : arena.get? id = some block) (fresh : arena.get? shadow = none)
    (leaf : Block) (other : String) : (arena.insert shadow leaf).get? other =
      if other = id then some block else if other = shadow then some leaf else arena.get? other := by
  rw [get?_insert]
  by_cases isOwner : other = id
  · subst isOwner
    have apart : shadow ≠ other := ne_of_fresh fresh found
    simp [apart, found]
  · by_cases isShadow : shadow = other
    · subst isShadow
      simp [isOwner]
    · simp [isOwner, isShadow, Ne.symm isShadow]

theorem resolved_newShadow (linked : arena.WellLinked) (found : arena.get? id = some block)
    {isNew : Bool} {previous : Input} (was : Previous block isNew previous)
    (fresh : arena.get? shadow = none) {opcode : String} (kind : Catalog.kind opcode = .shadow)
    (empty : previous.block = none ∧ previous.shadow = none)
    (notBoolean : Catalog.isBooleanInput block.opcode previous.name = false) (field value : String) :
    Resolved arena ⟨shadow, field, some ⟨id, shadow, isNew, previous⟩⟩
      ((arena.insert shadow (.newShadow id opcode field value)).modifyBlock id
        (·.withInput previous.name ({ · with block := some shadow, shadow := some shadow }))) := by
  let plug : Input → Input := ({ · with block := some shadow, shadow := some shadow })
  have lookups := get?_insert_newShadow found fresh (.newShadow id opcode field value)
  have apart : shadow ≠ id := ne_of_fresh fresh found
  have stored : (block.input? previous.name).getD (Input.empty previous.name) = previous ∨
      block.input? previous.name = none := by
    unfold Previous at was
    cases isNew with
    | true => exact .inr was
    | false =>
      have found : block.input? previous.name = some previous := was
      exact .inl (by rw [found, Option.getD_some])
  have bare : ((block.input? previous.name).getD (Input.empty previous.name)).block = none ∧
      ((block.input? previous.name).getD (Input.empty previous.name)).shadow = none := by
    rcases stored with same | missing
    · rw [same]
      exact empty
    · rw [missing]
      exact ⟨rfl, rfl⟩
  have scripts : (arena.insert shadow (.newShadow id opcode field value)).scripts = arena.scripts :=
    arena.scripts_insert_below shadow rfl
  have changedLookups : ∀ other, ((arena.insert shadow (.newShadow id opcode field value)).modifyBlock
      id (·.withInput previous.name plug)).get? other =
      if other = id then some (block.withInput previous.name plug)
      else if other = shadow then some (.newShadow id opcode field value) else arena.get? other := by
    intro other
    rw [get?_modifyBlock, lookups]
    by_cases isOwner : other = id
    · simp [isOwner]
    · simp [isOwner]
  refine ⟨linked.knit_newShadow found fresh kind bare, ?_, ?_, by simp, ?_⟩
  · exact .plugged found apart bare.1 kind
      (.inr ⟨fresh, Block.childIds_newShadow id opcode field value, notBoolean⟩) changedLookups scripts
  · refine (exists_get?_modifyBlock _ id _ shadow).mpr ⟨.newShadow id opcode field value, ?_⟩
    rw [get?_insert, if_pos rfl]
  · rintro _ ⟨⟩
    have keeps : ∀ input, (plug input).name = input.name := fun _ => rfl
    have back := unplug_newShadow found was fresh (linked.isolated fresh).2.2 rfl keeps (.inr rfl)
      changedLookups scripts
    rwa [empty.2, if_neg (by simp)] at back

theorem after_plugNew (linked : arena.WellLinked) (found : arena.get? id = some block)
    {isNew : Bool} {previous : Input} (was : Previous block isNew previous)
    (empty : previous.block = none ∧ previous.shadow = none) :
    After (plugNew id block.opcode isNew previous) arena (Resolved arena)
      fun fault next => next.uncounted = arena.uncounted ∧ fault.IsRefusal := by
  rw [plugNew, after_bind, after_check]
  refine ⟨?_, fun fault failed => ⟨rfl, refuses_shadowTemplate block.opcode previous.name fault failed⟩⟩
  rintro ⟨shadowOpcode, field, template⟩ made
  have kind := kind_shadowTemplate made
  -- The spent number is all that the arena with the new id differs in.
  have countedLinked : (arena.freshId "shadow").2.WellLinked := linked.of_uncounted rfl
  have countedFound : (arena.freshId "shadow").2.get? id = some block := found
  have fresh : (arena.freshId "shadow").2.get? (arena.freshId "shadow").1 = none :=
    arena.get?_freshId "shadow"
  rw [after_bind, after_newId, after_bind, after_modify]
  simp only
  split
  · have keeps : ∀ input : Input, ((fun same => same) input : Input).name = input.name := fun _ => rfl
    refine ⟨?_, trivial⟩
    have back := unplug_newShadow countedFound was fresh (countedLinked.isolated fresh).2.2 rfl keeps
      (.inl rfl) (get?_insert_newShadow countedFound fresh (.newShadow id shadowOpcode field template))
      (scripts_insert_below _ _ rfl)
    rwa [empty.2, if_neg (by simp)] at back
  · rename_i notBoolean
    have resolved := resolved_newShadow countedLinked countedFound was fresh kind empty
      (Bool.eq_false_iff.mpr notBoolean) field template
    rw [after_bind, after_update]
    refine ⟨fun _ => ⟨resolved.knit, resolved.readied.of_uncounted rfl, resolved.found, by simp,
      resolved.undone⟩, fun missing => ?_⟩
    have present := get?_insert_newShadow countedFound fresh
      (.newShadow id shadowOpcode field template) id
    rw [if_pos rfl] at present
    exact absurd (present.symm.trans missing) (by simp)

theorem after_replug (linked : arena.WellLinked) (found : arena.get? id = some block)
    {previous : Input} (was : block.input? previous.name = some previous)
    (empty : previous.block = none) (own : previous.shadow = some shadow) {kept : Block}
    (shadowFound : arena.get? shadow = some kept) :
    After (replug id shadow kept previous) arena (Resolved arena)
      fun fault next => next.uncounted = arena.uncounted ∧ fault.IsRefusal := by
  rw [replug, after_bind, after_check]
  refine ⟨fun field _ => ?_, fun fault failed =>
    ⟨rfl, refuses_shadowField previous.name shadow kept fault failed⟩⟩
  rw [after_bind, after_update]
  refine ⟨fun _ => ?_, fun missing => absurd (found.symm.trans missing) (by simp)⟩
  have held : (block.input? previous.name).getD (Input.empty previous.name) = previous := by
    rw [was, Option.getD_some]
  refine ⟨linked.knit_replug found was empty own, ?_, ?_, by simp, ?_⟩
  · have bare : ((block.input? previous.name).getD (Input.empty previous.name)).block = none ∧
        ((block.input? previous.name).getD (Input.empty previous.name)).shadow = some shadow := by
      rw [held]
      exact ⟨empty, own⟩
    have isShadow := ((linked.fitted id block found).inputs previous
      (List.mem_of_find?_eq_some was)).shadow shadow own
    have owned : shadow ∈ arena.childrenAt id :=
      mem_childrenAt found (Block.mem_childIds_of_shadow (List.mem_of_find?_eq_some was) own)
    have apart := (linked.forest.rooted shadow).ne_parent (linked.forest.parent_of_mem owned)
    refine .plugged found apart.symm bare.1 ((IsShadow.kind shadowFound).mp isShadow)
      (.inl ⟨shadowFound, bare.2⟩) (fun other => ?_) rfl
    rw [get?_modifyBlock]
    by_cases isOwner : other = id
    · subst isOwner
      have changed : block.withInput previous.name ({ · with block := some shadow }) =
          block.withInput previous.name ({ · with block := some shadow, shadow := some shadow }) := by
        apply Block.withInput_congr
        rw [held, ← own]
      rw [if_pos rfl, if_pos rfl, found, Option.map_some, changed]
    · rw [if_neg isOwner, if_neg isOwner]
      split
      · rename_i same
        rw [same, shadowFound]
      · rfl
  · exact (exists_get?_modifyBlock _ id _ shadow).mpr ⟨kept, shadowFound⟩
  · rintro _ ⟨⟩
    exact unplug_replug found was own

/-- Resolving a name makes a slot ready that can be taken back; where it is refused nothing changes
but the count of ids. -/
theorem after_resolve (linked : arena.WellLinked) (id name : String) :
    After (resolve id name) arena (Resolved arena)
      fun fault next => next.uncounted = arena.uncounted ∧ fault.IsRefusal := by
  have unchanged {slot : Slot} (noPlug : slot.plug = none)
      (found : ∃ block, arena.get? slot.block = some block) : Resolved arena slot arena := by
    refine ⟨linked.knit, .kept rfl, found, fun _ => rfl, ?_⟩
    intro plug isPlug
    rw [noPlug] at isPlug
    cases isPlug
  apply after_resolve_of_leads
  intro revision leads
  cases leads with
  | missing => exact ⟨rfl, trivial⟩
  | own found => exact unchanged rfl ⟨_, found⟩
  | plugged found _ plugged =>
    have member := mem_childrenAt found (Block.mem_childIds_of_plugged? plugged)
    obtain ⟨_, childFound⟩ := linked.found_of_mem member
    rw [after_bind, after_stored]
    refine ⟨fun held lookup => ?_, fun missing => absurd (childFound.symm.trans missing) (by simp)⟩
    rw [after_bind, after_check]
    exact ⟨fun field _ => unchanged rfl ⟨held, lookup⟩, fun fault failed =>
      ⟨rfl, refuses_shadowField _ _ held fault failed⟩⟩
  | owned found _ was empty own stored => exact after_replug linked found was empty own stored
  | @bare block previous found _ was empty unstored =>
    -- The input owns no shadow: it would be stored.
    have unowned : previous.shadow = none := by
      rw [Option.eq_none_iff_forall_ne_some]
      intro shadow own
      have member := mem_childrenAt found
        (Block.mem_childIds_of_shadow (List.mem_of_find?_eq_some was) own)
      obtain ⟨_, stored⟩ := linked.found_of_mem member
      exact ne_of_fresh (unstored shadow own) stored rfl
    have isPrevious : Previous block false previous := was
    exact after_plugNew linked found isPrevious ⟨empty, unowned⟩
  | @expected name block found _ absent _ =>
    have isPrevious : Previous block true (Input.empty name) := absent
    exact after_plugNew linked found isPrevious ⟨rfl, rfl⟩
  | unavailable => exact ⟨rfl, trivial⟩

end FieldWrite

end BlockGraph
