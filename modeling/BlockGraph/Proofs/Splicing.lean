import BlockGraph.Proofs.Places

/-!
What moving and deleting do to the blocks themselves, whatever shape the graph has. No block is new,
each keeps its type and its fields, and an input holds what it held before or the one block that the
edit put there: the block that was connected, or the one below a deleted block. This is so as well when
an edit fails half-way.
-/

set_option autoImplicit false

namespace BlockGraph

open Revision

namespace Block

variable {given : String → Prop} {block changed : Block} {name : String}

/-- Type and fields are the same, and an input holds what one of its name held before or what was
given to it. -/
structure Spliced (given : String → Prop) (block changed : Block) : Prop where
  opcode : changed.opcode = block.opcode
  fields : changed.fields = block.fields
  inputs : ∀ input ∈ changed.inputs, ∀ id ∈ input.childIds,
    given id ∨ ∃ old ∈ block.inputs, old.name = input.name ∧ id ∈ old.childIds

namespace Spliced

theorem of_inputs (opcode : changed.opcode = block.opcode) (fields : changed.fields = block.fields)
    (inputs : changed.inputs = block.inputs) : block.Spliced given changed :=
  ⟨opcode, fields, fun input member _ holds => .inr ⟨input, inputs ▸ member, rfl, holds⟩⟩

theorem trans {middle : Block} (first : block.Spliced given middle)
    (second : middle.Spliced given changed) : block.Spliced given changed := by
  refine ⟨second.opcode.trans first.opcode, second.fields.trans first.fields, ?_⟩
  intro input member id holds
  rcases second.inputs input member id holds with isGiven | ⟨between, inside, named, held⟩
  · exact .inl isGiven
  · rcases first.inputs between inside id held with isGiven | ⟨old, listed, same, had⟩
    · exact .inl isGiven
    · exact .inr ⟨old, listed, same.trans named, had⟩

theorem withInput {change : Input → Input} (keeps : ∀ slot, (change slot).name = slot.name)
    (slots : ∀ slot, ∀ id ∈ (change slot).childIds, given id ∨ id ∈ slot.childIds) :
    block.Spliced given (block.withInput name change) := by
  have frame := block.frame_withInput name change
  refine ⟨opcode_of_frame frame, fields_of_frame frame, ?_⟩
  intro input member id holds
  rcases mem_withInput member with old | rfl
  · exact .inr ⟨input, old, rfl, holds⟩
  · rcases slots _ id holds with isGiven | held
    · exact .inl isGiven
    · cases slot : block.input? name with
      | none => simp [slot, Input.empty, Input.childIds] at held
      | some old =>
        simp only [slot, Option.getD_some] at held ⊢
        exact .inr ⟨old, List.mem_of_find?_eq_some slot, (keeps old).symm, held⟩

/-- An input falls back to its own shadow. -/
theorem replaceChild? {old : String} {new : Option String}
    (replaced : block.replaceChild? old new = some changed)
    (isGiven : ∀ id, new = some id → given id) : block.Spliced given changed := by
  have frame := (frame_of_replaceChild? replaced).1
  refine ⟨opcode_of_frame frame, fields_of_frame frame, ?_⟩
  intro input member id holds
  rcases replaceChild?_cases replaced with
    ⟨-, rfl⟩ | ⟨branch, -, rfl⟩ | ⟨slot, inside, plugged, found, rfl⟩
  · exact .inr ⟨input, member, rfl, holds⟩
  · exact .inr ⟨input, member, rfl, holds⟩
  · rcases Input.mem_modifyFirst member with same | ⟨first, isFirst, rfl⟩
    · exact .inr ⟨input, same, rfl, holds⟩
    · obtain rfl := Option.some.inj (found.symm.trans isFirst)
      rcases Input.mem_childIds_iff.mp holds with hit | shadow
      · rcases Option.or_eq_some_iff.mp hit with isNew | ⟨-, shadow⟩
        · exact .inl (isGiven id isNew)
        · exact .inr ⟨slot, inside, rfl, Input.mem_childIds_iff.mpr (.inr shadow)⟩
      · exact .inr ⟨slot, inside, rfl, Input.mem_childIds_iff.mpr (.inr shadow)⟩

/-- An input that takes a block keeps what it held as its shadow. -/
theorem plug {source : String} (isGiven : given source) :
    block.Spliced given (block.withInput name fun slot =>
      { slot with block := some source, shadow := slot.shadow.or slot.block }) := by
  refine withInput (fun _ => rfl) fun slot id holds => ?_
  rw [Input.mem_childIds_iff] at holds ⊢
  rcases holds with isSource | shadow
  · exact .inl (Option.some.inj isSource ▸ isGiven)
  · rcases Option.or_eq_some_iff.mp shadow with own | ⟨-, was⟩
    · exact .inr (.inr own)
    · exact .inr (.inl was)

end Spliced

end Block

namespace Arena

variable {given : String → Prop} {arena middle next : Arena} {id : String}

/-- Every block is one that was stored before, spliced. -/
def Spliced (given : String → Prop) (arena next : Arena) : Prop :=
  ∀ id changed, next.get? id = some changed →
    ∃ block, arena.get? id = some block ∧ block.Spliced given changed

namespace Spliced

theorem refl (arena : Arena) : Spliced given arena arena :=
  fun _ block found => ⟨block, found, .of_inputs rfl rfl rfl⟩

theorem of_get? (spliced : Spliced given arena middle) (same : ∀ id, next.get? id = middle.get? id) :
    Spliced given arena next := by
  intro id changed found
  rw [same] at found
  exact spliced id changed found

theorem modifyBlock (spliced : Spliced given arena middle) {change : Block → Block}
    (keeps : ∀ block, middle.get? id = some block → block.Spliced given (change block)) :
    Spliced given arena (middle.modifyBlock id change) := by
  intro other changed found
  rw [get?_modifyBlock] at found
  split at found
  · rename_i same
    subst same
    obtain ⟨between, lookup, rfl⟩ := Option.map_eq_some_iff.mp found
    obtain ⟨block, stood, first⟩ := spliced other between lookup
    exact ⟨block, stood, first.trans (keeps between lookup)⟩
  · exact spliced other changed found

theorem setTopLevel (spliced : Spliced given arena middle) (topLevel : Bool) :
    Spliced given arena (middle.setTopLevel id topLevel) := by
  cases topLevel with
  | false =>
    have marked : Spliced given arena (middle.modifyBlock id fun block =>
        { block with topLevel := false, x := none, y := none }) :=
      spliced.modifyBlock fun _ _ => .of_inputs rfl rfl rfl
    exact marked.of_get? fun _ => rfl
  | true =>
    have marked : Spliced given arena (middle.modifyBlock id fun block =>
        { block with topLevel := true, parent := none }) :=
      spliced.modifyBlock fun _ _ => .of_inputs rfl rfl rfl
    exact marked.of_get? fun _ => rfl

theorem removeAll (spliced : Spliced given arena middle) (gone : List String) :
    Spliced given arena (middle.removeAll gone) := by
  intro other changed found
  rw [get?_removeAll] at found
  split at found
  · cases found
  · exact spliced other changed found

theorem isShadow (spliced : Spliced given arena next) (isShadow : next.IsShadow id) :
    arena.IsShadow id := by
  obtain ⟨changed, found, kind⟩ := isShadow
  obtain ⟨block, stood, same⟩ := spliced id changed found
  exact ⟨block, stood, same.opcode ▸ kind⟩

end Spliced

theorem splices_update (id : String) {change : Block → Block}
    (keeps : ∀ block : Block, block.Spliced given (change block)) :
    Maintains (Spliced given arena) (update id change) :=
  .update fun _ spliced => spliced.modifyBlock fun block _ => keeps block

theorem splices_setParent (id : String) (parent : Option String) :
    Maintains (Spliced given arena) (update id ({ · with parent := parent })) :=
  splices_update id fun _ => .of_inputs rfl rfl rfl

theorem splices_setNext (id : String) (next : Option String) :
    Maintains (Spliced given arena) (update id ({ · with next := next })) :=
  splices_update id fun _ => .of_inputs rfl rfl rfl

theorem splices_setPlace (id : String) (x y : Option Binary64) :
    Maintains (Spliced given arena) (update id ({ · with x := x, y := y })) :=
  splices_update id fun _ => .of_inputs rfl rfl rfl

theorem splices_markTopLevel (id : String) (topLevel : Bool) :
    Maintains (Spliced given arena) (markTopLevel id topLevel) := by
  intro middle spliced
  rw [after_markTopLevel]
  exact ⟨fun _ => spliced.setTopLevel topLevel, fun _ => spliced⟩

theorem splices_discard (root : String) : Maintains (Spliced given arena) (discard root) := by
  intro middle spliced
  rw [after_discard]
  exact ⟨fun gone _ => spliced.removeAll gone, fun _ _ => spliced⟩

theorem splices_relink (parent old : String) {new : Option String}
    (isGiven : ∀ id, new = some id → given id) :
    Maintains (Spliced given arena) (relink parent old new) := by
  intro middle spliced
  apply after_relink
  · intro owner changed found replaced
    refine spliced.modifyBlock fun stored lookup => ?_
    obtain rfl := Option.some.inj (found.symm.trans lookup)
    exact .replaceChild? replaced isGiven
  · intro _ _
    exact spliced

theorem splices_unlink (id : String) : Maintains (Spliced given arena) (unlink id) := by
  apply (Maintains.stored id).bind
  intro block
  cases block.parent with
  | none => exact .pure _
  | some parent =>
    exact (splices_relink parent id (by simp)).bind fun _ => splices_setParent id none

theorem splices_reattach (head : String) (displaced : Option String) :
    Maintains (Spliced given arena) (reattach head displaced) := by
  cases displaced with
  | none => exact .pure _
  | some displaced =>
    apply Maintains.bind_get
    intro middle spliced
    refine (Maintains.follow (middle.tailOf head)).bind (fun tail => ?_) middle spliced
    exact (splices_setNext tail (some displaced)).bind fun _ =>
      splices_setParent displaced (some tail)

theorem splices_attach {source : String} (isGiven : given source) (target : String)
    (placement : Placement) : Maintains (Spliced given arena) (attach source target placement) := by
  apply (Maintains.stored target).bind
  intro owner
  cases placement with
  | stackAfter =>
    exact (splices_setNext target (some source)).bind fun _ => splices_reattach source owner.next
  | statementInto input =>
    simp only
    split
    · rename_i branch _
      refine Maintains.bind ?_ fun _ => splices_reattach source (owner.branch branch)
      exact splices_update target fun _ => .of_inputs rfl rfl rfl
    · exact .pure _
  | valueInto input => exact splices_update target fun _ => .plug isGiven

/-- Connecting gives an input nothing but the block that is moved, which is no shadow. -/
theorem spliced_connect (arena : Arena) (source target : String) (placement : Placement) :
    After (connect source target placement) arena
      (fun _ => Spliced (fun id => id = source ∧ ¬arena.IsShadow id) arena)
      fun _ => Spliced (fun id => id = source ∧ ¬arena.IsShadow id) arena := by
  rw [connect, after_bind, after_get, after_bind, after_check]
  refine ⟨fun _ passed => ?_, fun _ _ => .refl arena⟩
  obtain ⟨moved, owner, subtree, placeable⟩ := placeable_of_check passed
  have solid : ¬arena.IsShadow source := not_isShadow placeable.foundSource placeable.solid
  have attaches : Maintains (Spliced (fun id => id = source ∧ ¬arena.IsShadow id) arena)
      (attach source target placement) := splices_attach ⟨rfl, solid⟩ target placement
  have moves := (splices_unlink source).bind fun _ =>
    (splices_markTopLevel source false).bind fun _ =>
      (splices_setParent source (some target)).bind fun _ => attaches
  exact moves arena (.refl arena)

theorem splices_detach (id : String) : Maintains (Spliced given arena) (detach id) := by
  apply Maintains.bind_get
  intro middle spliced
  refine (Maintains.check (middle.movable .source id)).bind (fun block => ?_) middle spliced
  simp only
  split
  · apply Maintains.bind_get
    intro middle spliced
    refine Maintains.bind (splices_unlink id) (fun _ => ?_) middle spliced
    apply (splices_markTopLevel id true).bind
    intro _
    exact (splices_setPlace id _ _).bind fun _ => .pure block.parent
  · exact .pure _

/-- Deleting gives an input nothing but the block below the deleted one. -/
theorem spliced_delete (arena : Arena) (id : String) :
    After (delete id) arena
      (fun _ => Spliced (fun child => arena.below? id = some child) arena)
      fun _ => Spliced (fun child => arena.below? id = some child) arena := by
  let Kept := Spliced (fun child => arena.below? id = some child) arena
  rw [delete, after_bind, after_get, after_bind, after_check]
  refine ⟨fun block passed => ?_, fun _ _ => .refl arena⟩
  have found := (movable_eq_ok passed).1
  have discards : Maintains Kept (do
      let removed ← discard id
      return (⟨block.opcode, block.topLevel, removed⟩ : Deletion)) :=
    (splices_discard id).bind fun _ => .pure _
  -- The block lets go of the one below it before it is discarded.
  have releases (lower : String) : Maintains Kept (do
      update lower ({ · with parent := block.parent })
      update id ({ · with next := none })
      let removed ← discard id
      return (⟨block.opcode, block.topLevel, removed⟩ : Deletion)) :=
    (splices_setParent lower block.parent).bind fun _ =>
      (splices_setNext id none).bind fun _ => discards
  cases up : block.parent with
  | some parent =>
    have relinks : Maintains Kept (relink parent id block.next) := by
      apply splices_relink
      intro child below
      rw [below?_of_get? found, below]
    refine relinks.bind (fun _ => ?_) arena (.refl arena)
    cases block.next with
    | none => exact discards
    | some lower => exact up ▸ releases lower
  | none =>
    cases block.next with
    | none => exact discards arena (.refl arena)
    | some lower =>
      have moves := (splices_markTopLevel lower true).bind fun _ =>
        (splices_setPlace lower block.x block.y).bind fun _ => up ▸ releases lower
      exact moves arena (.refl arena)

end Arena

end BlockGraph
