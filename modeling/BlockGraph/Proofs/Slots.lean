import BlockGraph.Block
import BlockGraph.Proofs.Forest

/-!
The slots of one block. A change of a slot exchanges at most one of the blocks that the block owns,
and leaves all but the slots as it was. `Tidy` is what holds of the slots and the place of every
block, `Fits` what holds when shadows stand in value inputs only.
-/

set_option autoImplicit false

namespace BlockGraph

open Forest

namespace Forest.Swaps

variable {before after : List String} {old new : Option String}

theorem slot (old new : Option String) : Swaps old.toList new.toList old new :=
  ⟨[], by simp, by simp⟩

theorem within (swaps : Swaps before after old new) (left right : List String) :
    Swaps (left ++ before ++ right) (left ++ after ++ right) old new := by
  obtain ⟨kept, beforePerm, afterPerm⟩ := swaps
  have moved (own : List String) {whole : List String} (perm : whole.Perm (own ++ kept)) :
      (left ++ whole ++ right).Perm (own ++ (left ++ kept ++ right)) := by
    calc (left ++ whole ++ right).Perm (left ++ (own ++ kept) ++ right) :=
          ((perm.append_left left).append_right right)
      List.Perm _ (own ++ left ++ (kept ++ right)) := by
          rw [← List.append_assoc, List.append_assoc (left ++ own)]
          exact List.perm_append_comm.append_right _
      List.Perm _ (own ++ (left ++ kept ++ right)) := by
          rw [List.append_assoc, List.append_assoc left]
  exact ⟨left ++ kept ++ right, moved _ beforePerm, moved _ afterPerm⟩

end Forest.Swaps

namespace Input

/-- The shadow of an input is one, and a shadow that is plugged in is no other than it. -/
structure Fits (isShadow : String → Prop) (input : Input) : Prop where
  shadow : ∀ id, input.shadow = some id → isShadow id
  plugged : ∀ id, input.block = some id → isShadow id →
    input.shadow = none ∨ input.shadow = some id

theorem modifyFirst_cases (test : Input → Bool) (change : Input → Input) (inputs : List Input) :
    (∃ before input after, inputs = before ++ input :: after ∧ test input = true ∧
        inputs.find? test = some input ∧
        modifyFirst test change inputs = before ++ change input :: after) ∨
      (∀ input ∈ inputs, test input = false) ∧ modifyFirst test change inputs = inputs := by
  induction inputs with
  | nil => exact .inr ⟨by simp, rfl⟩
  | cons head rest ih =>
    by_cases hit : test head = true
    · exact .inl ⟨[], head, rest, rfl, hit, by simp [hit], by simp [modifyFirst, hit]⟩
    · rcases ih with ⟨before, input, after, split, found, first, changed⟩ | ⟨none, same⟩
      · refine .inl ⟨head :: before, input, after, by simp [split], found, ?_, ?_⟩
        · rw [List.find?_cons_of_neg hit, first]
        · simp [modifyFirst, hit, changed]
      · refine .inr ⟨fun input member => ?_, by simp [modifyFirst, hit, same]⟩
        rcases List.mem_cons.mp member with rfl | later
        · simpa using hit
        · exact none input later

theorem mem_modifyFirst {test : Input → Bool} {change : Input → Input} {inputs : List Input}
    {input : Input} (member : input ∈ modifyFirst test change inputs) :
    input ∈ inputs ∨ ∃ slot, inputs.find? test = some slot ∧ input = change slot := by
  rcases modifyFirst_cases test change inputs with
    ⟨before, slot, after, split, -, first, changed⟩ | ⟨-, same⟩
  · rw [changed] at member
    simp only [List.mem_append, List.mem_cons] at member
    rcases member with left | rfl | right
    · exact .inl (by simp [split, left])
    · exact .inr ⟨slot, first, rfl⟩
    · exact .inl (by simp [split, right])
  · exact .inl (same ▸ member)

theorem map_modifyFirst {β : Type} {view : Input → β} (test : Input → Bool) (change : Input → Input)
    (keeps : ∀ input, test input = true → view (change input) = view input) (inputs : List Input) :
    (modifyFirst test change inputs).map view = inputs.map view := by
  rcases modifyFirst_cases test change inputs with
    ⟨before, slot, after, split, hit, -, changed⟩ | ⟨-, same⟩
  · rw [changed, split]
    simp [keeps slot hit]
  · rw [same]

theorem map_name_modifyFirst (test : Input → Bool) (change : Input → Input)
    (keeps : ∀ input, test input = true → (change input).name = input.name)
    (inputs : List Input) :
    (modifyFirst test change inputs).map name = inputs.map name :=
  map_modifyFirst test change keeps inputs

/-- An input that is found by its name after a change was found before it, or is the changed one. -/
theorem find?_modifyFirst {test : Input → Bool} {change : Input → Input} {input : Input}
    (keeps : ∀ input, (change input).name = input.name) {name : String} {inputs : List Input}
    (found : (modifyFirst test change inputs).find? (fun input => input.name = name) = some input) :
    inputs.find? (fun input => input.name = name) = some input ∨
      ∃ slot ∈ inputs, test slot = true ∧ input = change slot := by
  induction inputs with
  | nil => cases found
  | cons head rest ih =>
    rw [modifyFirst] at found
    rw [List.find?_cons]
    split at found
    · rename_i hit
      rw [List.find?_cons, keeps] at found
      by_cases named : head.name = name
      · simp only [named, decide_true, Option.some.injEq] at found
        exact .inr ⟨head, List.mem_cons_self, hit, found.symm⟩
      · simp only [named, decide_false] at found ⊢
        exact .inl found
    · rw [List.find?_cons] at found
      by_cases named : head.name = name
      · simp only [named, decide_true] at found ⊢
        exact .inl found
      · simp only [named, decide_false] at found ⊢
        rcases ih found with same | ⟨slot, member, changed⟩
        · exact .inl same
        · exact .inr ⟨slot, List.mem_cons_of_mem _ member, changed⟩

/-- Only the first input that satisfies the test is changed. -/
theorem modifyFirst_congr {test : Input → Bool} {first second : Input → Input}
    {inputs : List Input}
    (same : ∀ slot, inputs.find? test = some slot → first slot = second slot) :
    modifyFirst test first inputs = modifyFirst test second inputs := by
  induction inputs with
  | nil => rfl
  | cons head rest ih =>
    by_cases hit : test head = true
    · simp [modifyFirst, hit, same head (by simp [hit])]
    · simp [modifyFirst, hit, ih fun slot found => same slot (by simp [hit, found])]

theorem modifyFirst_append {test : Input → Bool} {slot : Input} (hit : test slot = true)
    {left : List Input} (misses : ∀ input ∈ left, (!test input) = true) (change : Input → Input)
    (right : List Input) :
    modifyFirst test change (left ++ slot :: right) = left ++ change slot :: right := by
  induction left with
  | nil => simp [modifyFirst, hit]
  | cons head rest ih =>
    have missed : test head = false := by simpa using misses head List.mem_cons_self
    have later := ih fun input member => misses input (List.mem_cons_of_mem head member)
    simp [modifyFirst, missed, later]

/-- Writing an input back undoes a change of it. -/
theorem modifyFirst_restore {change : Input → Input} {name : String} {slot : Input}
    (keeps : ∀ input, (change input).name = input.name) {inputs : List Input}
    (found : inputs.find? (fun input => input.name = name) = some slot) :
    modifyFirst (fun input => input.name = name) (fun _ => slot)
      (modifyFirst (fun input => input.name = name) change inputs) = inputs := by
  obtain ⟨named, left, right, rfl, misses⟩ := List.find?_eq_some_iff_append.mp found
  have changedNamed : decide ((change slot).name = name) = true := by
    rw [keeps]
    exact named
  rw [modifyFirst_append named misses, modifyFirst_append changedNamed misses]

theorem modifyFirst_self {name : String} {slot : Input} {inputs : List Input}
    (found : inputs.find? (fun input => input.name = name) = some slot) :
    modifyFirst (fun input => input.name = name) (fun _ => slot) inputs = inputs := by
  obtain ⟨named, left, right, rfl, misses⟩ := List.find?_eq_some_iff_append.mp found
  rw [modifyFirst_append named misses]

end Input

namespace Block

/-- What is in a block besides its slots. -/
def frame (block : Block) : Block :=
  { block with inputs := [], branches := {}, next := none }

/-- Inputs have different names, none of which is that of a branch, and only the top of a script has
a place. -/
structure Tidy (block : Block) : Prop where
  distinctInputs : (block.inputs.map Input.name).Nodup
  valueInputs : ∀ input ∈ block.inputs, Branch.ofName? input.name = none
  placed : block.topLevel = false → block.x = none ∧ block.y = none

/-- Shadows stand in value inputs only, and fit there. -/
structure Fits (isShadow : String → Prop) (block : Block) : Prop where
  next : ∀ id, block.next = some id → ¬isShadow id
  branch : ∀ branch id, block.branch branch = some id → ¬isShadow id
  inputs : ∀ input ∈ block.inputs, input.Fits isShadow

variable {block changed : Block} {isShadow : String → Prop} {old name : String}
  {new : Option String} {change : Input → Input}

theorem opcode_of_frame (same : changed.frame = block.frame) : changed.opcode = block.opcode := by
  simpa [frame] using congrArg Block.opcode same

theorem fields_of_frame (same : changed.frame = block.frame) : changed.fields = block.fields := by
  simpa [frame] using congrArg Block.fields same

theorem mutation_of_frame (same : changed.frame = block.frame) :
    changed.mutation = block.mutation := by
  simpa [frame] using congrArg Block.mutation same

theorem parent_of_frame (same : changed.frame = block.frame) : changed.parent = block.parent := by
  simpa [frame] using congrArg Block.parent same

theorem topLevel_of_frame (same : changed.frame = block.frame) :
    changed.topLevel = block.topLevel := by
  simpa [frame] using congrArg Block.topLevel same

theorem place_of_frame (same : changed.frame = block.frame) :
    changed.x = block.x ∧ changed.y = block.y := by
  constructor
  · simpa [frame] using congrArg Block.x same
  · simpa [frame] using congrArg Block.y same

theorem branches_eq (block : Block) :
    Branch.all.filterMap block.branch =
      (block.branch .first).toList ++ (block.branch .second).toList := by
  cases first : block.branch .first <;> cases second : block.branch .second <;>
    simp [Branch.all, first, second]

theorem childIds_eq (block : Block) :
    block.childIds = block.inputs.flatMap Input.childIds ++
      ((block.branch .first).toList ++ (block.branch .second).toList) ++ block.next.toList := by
  rw [childIds, branches_eq]

theorem childIds_setInputs (block : Block) (inputs : List Input) :
    ({ block with inputs := inputs } : Block).childIds = inputs.flatMap Input.childIds ++
      (Branch.all.filterMap block.branch ++ block.next.toList) := by
  rw [childIds, List.append_assoc]
  rfl

theorem mem_childIds_of_next {id : String} (below : block.next = some id) :
    id ∈ block.childIds := by
  simp [childIds, below]

theorem mem_childIds_of_branch {branch : Branch} {id : String}
    (head : block.branch branch = some id) : id ∈ block.childIds := by
  rw [childIds_eq]
  cases branch <;> simp [head]

theorem mem_childIds_of_block {input : Input} {id : String} (member : input ∈ block.inputs)
    (plugged : input.block = some id) : id ∈ block.childIds := by
  simp only [childIds, List.mem_append, List.mem_flatMap]
  refine .inl (.inl ⟨input, member, ?_⟩)
  simp [Input.childIds, plugged]

theorem mem_childIds_of_shadow {input : Input} {id : String} (member : input ∈ block.inputs)
    (shadow : input.shadow = some id) : id ∈ block.childIds := by
  by_cases plugged : input.block = some id
  · exact mem_childIds_of_block member plugged
  · simp only [childIds, List.mem_append, List.mem_flatMap]
    refine .inl (.inl ⟨input, member, ?_⟩)
    simp [Input.childIds, shadow, plugged]

theorem mem_childIds_of_plugged? {child : String} (plugged : block.plugged? name = some child) :
    child ∈ block.childIds := by
  obtain ⟨input, found, inside⟩ := Option.bind_eq_some_iff.mp plugged
  exact mem_childIds_of_block (List.mem_of_find?_eq_some found) inside

theorem swaps_next (block : Block) (new : Option String) :
    Swaps block.childIds ({ block with next := new } : Block).childIds block.next new := by
  simpa [childIds_eq, branch] using (Swaps.slot block.next new).within
    (block.inputs.flatMap Input.childIds ++
      ((block.branch .first).toList ++ (block.branch .second).toList)) []

theorem swaps_setBranch (block : Block) (branch : Branch) (new : Option String) :
    Swaps block.childIds (block.setBranch branch new).childIds (block.branch branch) new := by
  cases branch with
  | first =>
    simpa [childIds_eq, Block.branch, setBranch, Branches.set, Branches.get] using
      (Swaps.slot (block.branch .first) new).within (block.inputs.flatMap Input.childIds)
        ((block.branch .second).toList ++ block.next.toList)
  | second =>
    simpa [childIds_eq, Block.branch, setBranch, Branches.set, Branches.get] using
      (Swaps.slot (block.branch .second) new).within
        (block.inputs.flatMap Input.childIds ++ (block.branch .first).toList) block.next.toList

theorem swaps_modifyFirst {test : Input → Bool} {slot : Input}
    (found : block.inputs.find? test = some slot) {old : Option String}
    (swaps : Swaps slot.childIds (change slot).childIds old new) :
    Swaps block.childIds
      ({ block with inputs := Input.modifyFirst test change block.inputs } : Block).childIds
      old new := by
  rcases Input.modifyFirst_cases test change block.inputs with
    ⟨before, input, after, split, -, first, changed⟩ | ⟨none, -⟩
  · obtain rfl := Option.some.inj (found.symm.trans first)
    have result := swaps.within (before.flatMap Input.childIds)
      (after.flatMap Input.childIds ++ (Branch.all.filterMap block.branch ++ block.next.toList))
    rw [childIds_setInputs block (Input.modifyFirst test change block.inputs), changed, childIds,
      split]
    simpa using result
  · have hit := List.find?_some found
    rw [none slot (List.mem_of_find?_eq_some found)] at hit
    cases hit

theorem withInput_eq (block : Block) (name : String) (change : Input → Input) :
    (∃ slot, block.input? name = some slot ∧ block.withInput name change =
        { block with
          inputs := Input.modifyFirst (fun input => input.name = name) change block.inputs }) ∨
      block.input? name = none ∧ block.withInput name change =
        { block with inputs := block.inputs ++ [change (Input.empty name)] } := by
  cases found : block.input? name with
  | none => exact .inr ⟨rfl, by simp [withInput, found]⟩
  | some slot => exact .inl ⟨slot, rfl, by simp [withInput, found, modifyInput]⟩

theorem withInput_congr {first second : Input → Input}
    (same : first ((block.input? name).getD (Input.empty name)) =
      second ((block.input? name).getD (Input.empty name))) :
    block.withInput name first = block.withInput name second := by
  cases found : block.input? name with
  | none =>
    have missing : first (Input.empty name) = second (Input.empty name) := by
      simpa [found] using same
    simp [withInput, found, missing]
  | some slot =>
    have changed : first slot = second slot := by simpa [found] using same
    simp only [withInput, found, Option.isSome_some, if_true, modifyInput]
    rw [Input.modifyFirst_congr]
    intro other isFirst
    rw [← Option.some.inj (found.symm.trans isFirst), changed]

/-- An input that is missing counts as empty. -/
theorem swaps_withInput {old : Option String}
    (swaps : Swaps ((block.input? name).getD (Input.empty name)).childIds
      (change ((block.input? name).getD (Input.empty name))).childIds old new) :
    Swaps block.childIds (block.withInput name change).childIds old new := by
  rcases block.withInput_eq name change with ⟨slot, found, same⟩ | ⟨missing, same⟩
  · rw [same]
    rw [found] at swaps
    exact swaps_modifyFirst found swaps
  · rw [same]
    rw [missing] at swaps
    have result := swaps.within (block.inputs.flatMap Input.childIds)
      (Branch.all.filterMap block.branch ++ block.next.toList)
    have nothing : (Input.empty name).childIds = [] := rfl
    rw [childIds_setInputs block (block.inputs ++ [change (Input.empty name)]), childIds]
    simpa [nothing] using result

/-- An input that was added goes again without a trace. -/
theorem withoutInput_withInput (missing : block.input? name = none)
    (keeps : ∀ input, (change input).name = input.name) :
    (block.withInput name change).withoutInput name = block := by
  rcases block.withInput_eq name change with ⟨slot, found, -⟩ | ⟨-, same⟩
  · rw [missing] at found
    cases found
  · have kept : block.inputs.filter (fun input => input.name ≠ name) = block.inputs := by
      apply List.filter_eq_self.mpr
      intro input member
      simpa using List.find?_eq_none.mp missing input member
    rw [same, withoutInput, List.filter_append, kept]
    simp [keeps, Input.empty]

/-- An input that was changed is put back. -/
theorem modifyInput_withInput {slot : Input} (found : block.input? name = some slot)
    (keeps : ∀ input, (change input).name = input.name) :
    (block.withInput name change).modifyInput name (fun _ => slot) = block := by
  rcases block.withInput_eq name change with ⟨_, -, same⟩ | ⟨missing, -⟩
  · rw [same, modifyInput, Input.modifyFirst_restore keeps found]
  · rw [missing] at found
    cases found

theorem withoutInput_self (missing : block.input? name = none) : block.withoutInput name = block := by
  have kept : block.inputs.filter (fun input => input.name ≠ name) = block.inputs := by
    apply List.filter_eq_self.mpr
    intro input member
    simpa using List.find?_eq_none.mp missing input member
  rw [withoutInput, kept]

theorem modifyInput_self {slot : Input} (found : block.input? name = some slot) :
    block.modifyInput name (fun _ => slot) = block := by
  rw [modifyInput, Input.modifyFirst_self found]

@[simp]
theorem frame_withInput (block : Block) (name : String) (change : Input → Input) :
    (block.withInput name change).frame = block.frame := by
  rcases block.withInput_eq name change with ⟨_, _, same⟩ | ⟨_, same⟩ <;> rw [same] <;> rfl

theorem mem_withInput {input : Input} (member : input ∈ (block.withInput name change).inputs) :
    input ∈ block.inputs ∨ input = change ((block.input? name).getD (Input.empty name)) := by
  rcases block.withInput_eq name change with ⟨slot, found, same⟩ | ⟨missing, same⟩
  · rw [same] at member
    rcases Input.mem_modifyFirst member with old | ⟨other, first, rfl⟩
    · exact .inl old
    · obtain rfl := Option.some.inj (found.symm.trans first)
      exact .inr (by simp [found])
  · rw [same] at member
    rcases List.mem_append.mp member with old | new
    · exact .inl old
    · exact .inr (by simpa [missing] using new)

namespace Fits

/-- Only the kinds of the children matter. -/
theorem congr {isShadow' : String → Prop} (fits : block.Fits isShadow)
    (same : ∀ id ∈ block.childIds, isShadow' id ↔ isShadow id) : block.Fits isShadow' where
  next id below shadow :=
    fits.next id below ((same id (mem_childIds_of_next below)).mp shadow)
  branch branch id head shadow :=
    fits.branch branch id head ((same id (mem_childIds_of_branch head)).mp shadow)
  inputs input member :=
    have slotFits := fits.inputs input member
    { shadow := fun id shadow =>
        (same id (mem_childIds_of_shadow member shadow)).mpr (slotFits.shadow id shadow)
      plugged := fun id plugged shadow =>
        slotFits.plugged id plugged ((same id (mem_childIds_of_block member plugged)).mp shadow) }

theorem setNext (fits : block.Fits isShadow) (solid : ∀ id, new = some id → ¬isShadow id) :
    ({ block with next := new } : Block).Fits isShadow :=
  ⟨solid, fits.branch, fits.inputs⟩

theorem setBranch (fits : block.Fits isShadow) (branch : Branch)
    (solid : ∀ id, new = some id → ¬isShadow id) :
    (block.setBranch branch new).Fits isShadow where
  next := fits.next
  branch other id head := by
    by_cases same : branch = other
    · exact solid id (by simpa [Block.branch, Block.setBranch, same] using head)
    · exact fits.branch other id (by simpa [Block.branch, Block.setBranch, same] using head)
  inputs := fits.inputs

theorem withInput (fits : block.Fits isShadow)
    (slotFits : (change ((block.input? name).getD (Input.empty name))).Fits isShadow) :
    (block.withInput name change).Fits isShadow := by
  have inputs : ∀ input ∈ (block.withInput name change).inputs, input.Fits isShadow := by
    intro input member
    rcases mem_withInput member with old | rfl
    · exact fits.inputs input old
    · exact slotFits
  rcases block.withInput_eq name change with ⟨_, _, same⟩ | ⟨_, same⟩
  · exact ⟨same ▸ fits.next, same ▸ fits.branch, inputs⟩
  · exact ⟨same ▸ fits.next, same ▸ fits.branch, inputs⟩

theorem input (fits : block.Fits isShadow) :
    ((block.input? name).getD (Input.empty name)).Fits isShadow := by
  cases found : block.input? name with
  | none => exact ⟨by simp [Input.empty], by simp [Input.empty]⟩
  | some slot => exact fits.inputs slot (List.mem_of_find?_eq_some found)

end Fits

/-- The slots that a replaced child can stand in, and what becomes of each. -/
theorem replaceChild?_cases (replaced : block.replaceChild? old new = some changed) :
    block.next = some old ∧ changed = { block with next := new } ∨
    (∃ branch, block.branch branch = some old ∧ changed = block.setBranch branch new) ∨
    ∃ slot, slot ∈ block.inputs ∧ slot.block = some old ∧
      block.inputs.find? (fun input => input.block = some old) = some slot ∧
      changed = { block with
        inputs := Input.modifyFirst (fun input => input.block = some old)
          (fun input => { input with block := new.or input.shadow }) block.inputs } := by
  rw [replaceChild?] at replaced
  split at replaced
  · rename_i below
    exact .inl ⟨below, (Option.some.inj replaced).symm⟩
  · split at replaced
    · rename_i branch found
      refine .inr (.inl ⟨branch, ?_, (Option.some.inj replaced).symm⟩)
      simpa using List.find?_some found
    · simp only at replaced
      split at replaced
      · rename_i holds
        refine .inr (.inr ?_)
        obtain ⟨input, member, hit⟩ := List.any_eq_true.mp holds
        obtain ⟨slot, found⟩ := Option.isSome_iff_exists.mp
          (List.find?_isSome (p := fun input => input.block = some old)
            |>.mpr ⟨input, member, hit⟩)
        exact ⟨slot, List.mem_of_find?_eq_some found, by simpa using List.find?_some found, found,
          (Option.some.inj replaced).symm⟩
      · cases replaced

theorem frame_of_replaceChild? (replaced : block.replaceChild? old new = some changed) :
    changed.frame = block.frame ∧
      changed.inputs.map Input.name = block.inputs.map Input.name := by
  rcases replaceChild?_cases replaced with
    ⟨-, rfl⟩ | ⟨branch, -, rfl⟩ | ⟨slot, -, -, -, rfl⟩
  · exact ⟨rfl, rfl⟩
  · exact ⟨rfl, rfl⟩
  · exact ⟨rfl, Input.map_name_modifyFirst (fun input => input.block = some old)
      (fun input => { input with block := new.or input.shadow }) (fun _ _ => rfl) block.inputs⟩

/-- A child that is no shadow stands in a slot where it can be replaced. -/
theorem exists_replaceChild? (fits : block.Fits isShadow) (owned : old ∈ block.childIds)
    (solid : ¬isShadow old) (new : Option String) :
    ∃ changed, block.replaceChild? old new = some changed := by
  rw [replaceChild?]
  split
  · exact ⟨_, rfl⟩
  · rename_i notBelow
    split
    · exact ⟨_, rfl⟩
    · rename_i noBranch
      have plugged : (block.inputs.any fun input => input.block = some old) = true := by
        simp only [childIds, List.mem_append, List.mem_flatMap, List.mem_filterMap,
          Option.mem_toList] at owned
        rcases owned with (⟨input, member, inside⟩ | ⟨branch, member, head⟩) | below
        · refine List.any_eq_true.mpr ⟨input, member, ?_⟩
          simp only [Input.childIds, List.mem_append, Option.mem_toList,
            Option.filter_eq_some_iff] at inside
          rcases inside with hit | ⟨shadow, -⟩
          · simpa using hit
          · exact absurd ((fits.inputs input member).shadow old shadow) solid
        · exact absurd head (by simpa using List.find?_eq_none.mp noBranch branch member)
        · exact absurd below notBelow
      simp only [plugged, if_true]
      exact ⟨_, rfl⟩

/-- A replaced child leaves its slot, unless it is the shadow of that slot as well. -/
theorem swaps_of_replaceChild?
    (apart : ∀ slot ∈ block.inputs, slot.block = some old → slot.shadow ≠ some old)
    (replaced : block.replaceChild? old new = some changed)
    (isNew : ∀ id, new = some id → id ∉ block.childIds) :
    Swaps block.childIds changed.childIds (some old) new := by
  rcases replaceChild?_cases replaced with
    ⟨below, rfl⟩ | ⟨branch, head, rfl⟩ | ⟨slot, member, plugged, found, rfl⟩
  · exact below ▸ block.swaps_next new
  · exact head ▸ block.swaps_setBranch branch new
  · refine swaps_modifyFirst found ?_
    cases shadow : slot.shadow with
    | none => exact ⟨[], by simp [Input.childIds, plugged, shadow],
        by cases new <;> simp [Input.childIds]⟩
    | some id =>
      have different : id ≠ old := by
        rintro rfl
        exact apart slot member plugged shadow
      refine ⟨[id], by simp [Input.childIds, plugged, shadow, Ne.symm different], ?_⟩
      cases new with
      | none => simp [Input.childIds]
      | some fresh =>
        have apart : fresh ≠ id := by
          rintro rfl
          exact isNew fresh rfl (mem_childIds_of_shadow member shadow)
        simp [Input.childIds, apart]

theorem swaps_replaceChild? (fits : block.Fits isShadow) (solid : ¬isShadow old)
    (replaced : block.replaceChild? old new = some changed)
    (isNew : ∀ id, new = some id → id ∉ block.childIds) :
    Swaps block.childIds changed.childIds (some old) new := by
  refine swaps_of_replaceChild? (fun slot member _ shadow => ?_) replaced isNew
  exact solid ((fits.inputs slot member).shadow old shadow)

theorem fits_replaceChild? (fits : block.Fits isShadow)
    (replaced : block.replaceChild? old new = some changed)
    (solid : ∀ id, new = some id → ¬isShadow id) : changed.Fits isShadow := by
  rcases replaceChild?_cases replaced with
    ⟨below, rfl⟩ | ⟨branch, head, rfl⟩ | ⟨slot, member, plugged, found, rfl⟩
  · exact fits.setNext solid
  · exact fits.setBranch branch solid
  · refine ⟨fits.next, fits.branch, fun input inside => ?_⟩
    rcases Input.mem_modifyFirst inside with old | ⟨other, first, rfl⟩
    · exact fits.inputs input old
    · obtain rfl := Option.some.inj (found.symm.trans first)
      have slotFits := fits.inputs slot member
      refine ⟨slotFits.shadow, fun id hit isShadow => ?_⟩
      cases new with
      | none => exact .inr hit
      | some fresh =>
        obtain rfl : fresh = id := by simpa using hit
        exact absurd isShadow (solid fresh rfl)

/-- When a child is taken away, an input that held it falls back to its shadow; the other inputs
hold what they held. -/
theorem plugged?_of_replaceChild? (fits : block.Fits isShadow)
    (replaced : block.replaceChild? old none = some changed) {child : String}
    (plugged : changed.plugged? name = some child) :
    isShadow child ∨ block.plugged? name = some child := by
  rcases replaceChild?_cases replaced with
    ⟨-, rfl⟩ | ⟨branch, -, rfl⟩ | ⟨slot, member, -, found, rfl⟩
  · exact .inr plugged
  · exact .inr plugged
  · obtain ⟨input, first, inside⟩ := Option.bind_eq_some_iff.mp plugged
    have keeps : ∀ input : Input,
        ({ input with block := none.or input.shadow } : Input).name = input.name := fun _ => rfl
    rcases Input.find?_modifyFirst keeps first with same | ⟨held, listed, -, rfl⟩
    · exact .inr (Option.bind_eq_some_iff.mpr ⟨input, same, inside⟩)
    · exact .inl ((fits.inputs held listed).shadow child inside)

/-- A new shadow in an input of `owner`. -/
def newShadow (owner opcode field value : String) : Block where
  opcode := opcode
  parent := some owner
  fields := (∅ : Dict Field).insert field (Field.plain value)

theorem tidy_newShadow (owner opcode field value : String) :
    (newShadow owner opcode field value).Tidy :=
  ⟨List.nodup_nil, by simp [newShadow], fun _ => ⟨rfl, rfl⟩⟩

theorem fits_newShadow (owner opcode field value : String) :
    (newShadow owner opcode field value).Fits isShadow :=
  ⟨by simp [newShadow], fun branch => by cases branch <;> simp [newShadow, Block.branch, Branches.get],
    by simp [newShadow]⟩

theorem childIds_newShadow (owner opcode field value : String) :
    (newShadow owner opcode field value).childIds = [] := rfl

end Block

end BlockGraph
