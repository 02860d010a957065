import BlockGraph.Edit.FieldWrite
import BlockGraph.Proofs.Arena
import BlockGraph.Proofs.Placement

/-!
The steps of an edit, on any blocks. Taking a block from its parent, deleting it and looking for the
slot that a name stands for are read here once: what the blocks are when the edit succeeds, and where
it can stop. Whether links are whole plays no part yet.
-/

set_option autoImplicit false

namespace BlockGraph

open Revision

namespace Arena

variable {arena : Arena} {id : String} {block : Block}

theorem after_relink {parent : String} {new : Option String} {success : Unit → Arena → Prop}
    {failure : Fault → Arena → Prop}
    (replaced : ∀ owner changed, arena.get? parent = some owner →
      owner.replaceChild? id new = some changed →
      success () (arena.modifyBlock parent fun _ => changed))
    (unowned : ∀ damage, (∀ owner, arena.get? parent = some owner →
      owner.replaceChild? id new = none) → failure (.damaged damage) arena) :
    After (relink parent id new) arena success failure := by
  rw [relink, after_bind, after_stored]
  refine ⟨fun owner found => ?_, fun missing => ?_⟩
  · cases exchanged : owner.replaceChild? id new with
    | some changed => exact replaced owner changed found exchanged
    | none =>
      apply unowned
      intro same lookup
      cases Option.some.inj (found.symm.trans lookup)
      exact exchanged
  · apply unowned
    intro owner found
    cases missing.symm.trans found

/-- The arena in which a block has been taken from its parent. -/
inductive Loosed (arena : Arena) (id : String) (block : Block) : Arena → Prop
  | top : block.parent = none → Loosed arena id block arena
  | taken {parent : String} {owner changed : Block} : block.parent = some parent →
      arena.get? parent = some owner → owner.replaceChild? id none = some changed →
      Loosed arena id block
        ((arena.modifyBlock parent fun _ => changed).modifyBlock id ({ · with parent := none }))

/-- A block is taken from its parent, or the parent does not own it. -/
theorem loosed_of_unlink (found : arena.get? id = some block) :
    After (unlink id) arena (fun _ => Loosed arena id block) fun _ next =>
      next = arena ∧ ∃ parent, block.parent = some parent ∧
        ∀ owner, arena.get? parent = some owner → owner.replaceChild? id none = none := by
  rw [unlink, after_bind, after_stored_of_get? found]
  cases up : block.parent with
  | none => exact .top up
  | some parent =>
    simp only [after_bind]
    apply after_relink
    · intro owner changed ownerFound replaced
      obtain ⟨_, stored⟩ :=
        (exists_get?_modifyBlock arena parent (fun _ => changed) id).mpr ⟨block, found⟩
      rw [after_update_of_get? stored]
      exact .taken up ownerFound replaced
    · intro _ unowned
      exact ⟨rfl, parent, rfl, unowned⟩

/-- The arena in which a block has given up its place to the block below it, and lets go of that one. -/
inductive Freed (arena : Arena) (id : String) (block : Block) : Arena → Prop
  | replaced {parent : String} {owner changed : Block} : block.parent = some parent →
      block.next = none → arena.get? parent = some owner →
      owner.replaceChild? id none = some changed →
      Freed arena id block (arena.modifyBlock parent fun _ => changed)
  | promoted {parent lower : String} {owner changed : Block} : block.parent = some parent →
      block.next = some lower → arena.get? parent = some owner →
      owner.replaceChild? id (some lower) = some changed →
      Freed arena id block (((arena.modifyBlock parent fun _ => changed).modifyBlock lower
        ({ · with parent := some parent })).modifyBlock id ({ · with next := none }))
  | alone : block.parent = none → block.next = none → Freed arena id block arena
  | headed {lower : String} : block.parent = none → block.next = some lower →
      Freed arena id block ((((arena.setTopLevel lower true).modifyBlock lower
        ({ · with x := block.x, y := block.y })).modifyBlock lower
          ({ · with parent := none })).modifyBlock id ({ · with next := none }))

/-- What a deletion that succeeds has done: the block has given up its place, and is gone with all that
it owns there. -/
inductive Discards (arena : Arena) (id : String) : Deletion → Arena → Prop
  | intro {block : Block} {state : Arena} {gone : List String} : arena.get? id = some block →
      Catalog.kind block.opcode ≠ .shadow → Freed arena id block state →
      state.subtreeIds id = .ok gone →
      Discards arena id ⟨block.opcode, block.topLevel, gone⟩ (state.removeAll gone)

/-- Where a deletion can stop: the block may not be deleted, its parent does not own it, the block
below it is missing, or its contents cannot be walked through. -/
inductive Halts (arena : Arena) (id : String) : Fault → Arena → Prop
  | refused {fault : Fault} : arena.movable .target id = .error fault → Halts arena id fault arena
  | unowned {damage : Damage} {parent : String} {block : Block} : arena.get? id = some block →
      Catalog.kind block.opcode ≠ .shadow → block.parent = some parent →
      (∀ owner, arena.get? parent = some owner → owner.replaceChild? id block.next = none) →
      Halts arena id (.damaged damage) arena
  | headless {lower : String} {block : Block} : arena.get? id = some block →
      block.parent = none → block.next = some lower → arena.get? lower = none →
      Halts arena id (.damaged (.missingBlock lower)) arena
  | interrupted {parent lower : String} {block owner changed : Block} :
      arena.get? id = some block → block.parent = some parent → block.next = some lower →
      arena.get? lower = none → arena.get? parent = some owner →
      owner.replaceChild? id (some lower) = some changed →
      Halts arena id (.damaged (.missingBlock lower)) (arena.modifyBlock parent fun _ => changed)
  | unwalked {damage : Damage} {block : Block} {state : Arena} : arena.get? id = some block →
      Catalog.kind block.opcode ≠ .shadow → Freed arena id block state →
      state.subtreeIds id = .error damage → Halts arena id (.damaged damage) state

theorem discards_of_delete (arena : Arena) (id : String) :
    After (delete id) arena (Discards arena id) (Halts arena id) := by
  rw [delete, after_bind, after_get, after_bind, after_check]
  refine ⟨fun block passed => ?_, fun _ => .refused⟩
  obtain ⟨found, solid⟩ := movable_eq_ok passed
  have discards {state : Arena} (freed : Freed arena id block state) :
      After (do
        let removed ← discard id
        return (⟨block.opcode, block.topLevel, removed⟩ : Deletion)) state
        (Discards arena id) (Halts arena id) := by
    rw [after_bind, after_discard]
    exact ⟨fun gone => .intro found solid freed, fun damage => .unwalked found solid freed⟩
  have present {state : Arena} (change : Block → Block) (place : String) {other : String}
      (stored : ∃ kept, state.get? other = some kept) :
      ∃ kept, (state.modifyBlock place change).get? other = some kept :=
    (exists_get?_modifyBlock state place change other).mpr stored
  cases up : block.parent with
  | some parent =>
    rw [after_bind]
    apply after_relink
    · intro owner changed ownerFound replaced
      cases down : block.next with
      | none =>
        rw [down] at replaced
        exact discards (.replaced up down ownerFound replaced)
      | some lower =>
        rw [down] at replaced
        dsimp only
        rw [after_bind, after_update]
        refine ⟨fun _ => ?_, fun missing => ?_⟩
        · obtain ⟨_, own⟩ := present ({ · with parent := some parent }) lower
            (present (fun _ => changed) parent ⟨block, found⟩)
          rw [after_bind, after_update_of_get? own]
          exact discards (.promoted up down ownerFound replaced)
        · refine .interrupted found up down ?_ ownerFound replaced
          rw [Option.eq_none_iff_forall_ne_some]
          intro low stored
          obtain ⟨_, kept⟩ := present (fun _ => changed) parent ⟨low, stored⟩
          cases kept.symm.trans missing
    · intro _ unowned
      exact .unowned found solid up unowned
  | none =>
    cases down : block.next with
    | none => exact discards (.alone up down)
    | some lower =>
      dsimp only
      rw [after_bind, after_markTopLevel]
      refine ⟨fun stored => ?_, fun missing => .headless found up down missing⟩
      have marked : ∀ {other : String}, (∃ kept, arena.get? other = some kept) →
          ∃ kept, (arena.setTopLevel lower true).get? other = some kept :=
        present _ lower
      obtain ⟨_, top⟩ := marked stored
      obtain ⟨_, placed⟩ := present ({ · with x := block.x, y := block.y }) lower (marked stored)
      obtain ⟨_, own⟩ := present ({ · with parent := none }) lower
        (present ({ · with x := block.x, y := block.y }) lower (marked ⟨block, found⟩))
      rw [after_bind, after_update_of_get? top, after_bind, after_update_of_get? placed, after_bind,
        after_update_of_get? own]
      exact discards (.headed up down)

end Arena

namespace FieldWrite

/-- What a name leads to on a block: a slot that is there, or a shadow that has to be plugged in. -/
inductive Leads (arena : Arena) (id : String) : String → Revision Arena Slot → Prop
  | missing {name : String} : arena.get? id = none →
      Leads arena id name (throw (.blockNotFound id))
  | own {name : String} {block : Block} : arena.get? id = some block →
      block.fields.contains name = true → Leads arena id name (pure ⟨id, name, none⟩)
  | plugged {name child : String} {block : Block} : arena.get? id = some block →
      block.fields.contains name = false → block.plugged? name = some child →
      Leads arena id name (do
        let held ← Arena.stored child
        let field ← Revision.check (shadowField name child held)
        return ⟨child, field, none⟩)
  | owned {shadow : String} {block kept : Block} {previous : Input} : arena.get? id = some block →
      block.fields.contains previous.name = false → block.input? previous.name = some previous →
      previous.block = none → previous.shadow = some shadow → arena.get? shadow = some kept →
      Leads arena id previous.name (replug id shadow kept previous)
  | bare {block : Block} {previous : Input} : arena.get? id = some block →
      block.fields.contains previous.name = false → block.input? previous.name = some previous →
      previous.block = none → (∀ shadow, previous.shadow = some shadow → arena.get? shadow = none) →
      Leads arena id previous.name (plugNew id block.opcode false previous)
  | expected {name : String} {block : Block} : arena.get? id = some block →
      block.fields.contains name = false → block.input? name = none →
      (Catalog.expectedInputs block.opcode).contains name = true →
      Leads arena id name (plugNew id block.opcode true (Input.empty name))
  | unavailable {name : String} {block : Block} : arena.get? id = some block →
      block.fields.contains name = false → block.input? name = none →
      Leads arena id name (throw (.inputUnavailable name id (Outline.inputNames block)))

theorem after_resolve_of_leads {arena : Arena} {id name : String} {success : Slot → Arena → Prop}
    {failure : Fault → Arena → Prop}
    (each : ∀ revision, Leads arena id name revision → After revision arena success failure) :
    After (resolve id name) arena success failure := by
  rw [resolve, after_bind, after_get]
  cases found : arena.get? id with
  | none => exact each _ (.missing found)
  | some block =>
  simp only
  split
  · rename_i isField
    exact each _ (.own found isField)
  rename_i isField
  have notField : block.fields.contains name = false := Bool.eq_false_iff.mpr isField
  cases plugged : block.plugged? name with
  | some child => exact each _ (.plugged found notField plugged)
  | none =>
  cases slot : block.input? name with
  | some previous =>
    have named : previous.name = name := by simpa using List.find?_some slot
    have empty : previous.block = none := by simpa [Block.plugged?, slot] using plugged
    subst named
    simp only
    split
    · rename_i shadow kept owns
      obtain ⟨_, own, stored⟩ := Option.bind_eq_some_iff.mp owns
      obtain ⟨_, lookup, same⟩ := Option.map_eq_some_iff.mp stored
      cases same
      exact each _ (.owned found notField slot empty own lookup)
    · rename_i unowned
      refine each _ (.bare found notField slot empty fun shadow own => ?_)
      simpa [own] using unowned
  | none =>
    simp only
    split
    · rename_i expected
      exact each _ (.expected found notField slot expected)
    · exact each _ (.unavailable found notField slot)

/-- Resolving a name keeps whatever plugging in a shadow keeps. -/
theorem maintains_resolve_of_plugs {invariant : Arena → Prop}
    (replugs : ∀ owner shadow block previous, Maintains invariant (replug owner shadow block previous))
    (plugs : ∀ owner opcode isNew previous, Maintains invariant (plugNew owner opcode isNew previous))
    (id name : String) : Maintains invariant (resolve id name) := by
  intro arena holds
  apply after_resolve_of_leads
  intro revision leads
  cases leads with
  | missing => exact holds
  | own => exact holds
  | plugged =>
    refine (Maintains.stored _).bind (fun held => ?_) arena holds
    exact (Maintains.check _).bind fun _ => .pure _
  | owned => exact replugs _ _ _ _ arena holds
  | bare => exact plugs _ _ _ _ arena holds
  | expected => exact plugs _ _ _ _ arena holds
  | unavailable => exact holds

end FieldWrite

end BlockGraph
