import BlockGraph.Proofs.Dict
import BlockGraph.Proofs.Splicing

/-!
The fields of blocks under edits, whatever shape the graph has. Only a field write changes the fields
of a stored block. Moving and deleting leave them as they are, and blocks that are made on the way,
the shadow in a slot that is made ready or a new block with its shadows, name no entity in any field.
-/

set_option autoImplicit false

namespace BlockGraph

open Revision

/-- No field of the block names an entity. -/
def Block.Plain (block : Block) : Prop :=
  ∀ name field, block.fields.get? name = some field → field.id = none

theorem Block.plain_newShadow (owner opcode field value : String) :
    (newShadow owner opcode field value).Plain := by
  intro name written found
  rw [newShadow, Dict.get?_insert] at found
  split at found
  · rw [← Option.some.inj found]
    rfl
  · cases found

namespace Arena

variable {base arena next : Arena}

/-- Every block has the fields that were stored under its id, or names no entity. -/
def Inherits (base arena : Arena) : Prop :=
  ∀ id block, arena.get? id = some block →
    block.Plain ∨ ∃ old, base.get? id = some old ∧ block.fields = old.fields

namespace Inherits

theorem refl (base : Arena) : base.Inherits base :=
  fun _ block found => .inr ⟨block, found, rfl⟩

theorem of_get? (inherits : base.Inherits arena) (same : ∀ id, next.get? id = arena.get? id) :
    base.Inherits next := by
  intro id block found
  rw [same] at found
  exact inherits id block found

theorem spliced {given : String → Prop} (inherits : base.Inherits arena)
    (spliced : Spliced given arena next) : base.Inherits next := by
  intro id changed found
  obtain ⟨block, stood, same⟩ := spliced id changed found
  rw [Block.Plain, same.fields]
  exact inherits id block stood

theorem modifyBlock (inherits : base.Inherits arena) {id : String} {change : Block → Block}
    (same : ∀ block, (change block).fields = block.fields) :
    base.Inherits (arena.modifyBlock id change) := by
  intro other changed found
  rw [get?_modifyBlock] at found
  split at found
  · obtain ⟨block, stood, rfl⟩ := Option.map_eq_some_iff.mp found
    rw [Block.Plain, same]
    exact inherits other block stood
  · exact inherits other changed found

theorem remove (inherits : base.Inherits arena) (id : String) : base.Inherits (arena.remove id) := by
  intro other block found
  rw [get?_remove] at found
  split at found
  · cases found
  · exact inherits other block found

theorem insert (inherits : base.Inherits arena) (id : String) {block : Block} (plain : block.Plain) :
    base.Inherits (arena.insert id block) := by
  intro other stored found
  rw [get?_insert] at found
  split at found
  · rw [← Option.some.inj found]
    exact .inl plain
  · exact inherits other stored found

end Inherits

theorem inherits_updateInputs (id : String) {change : Block → Block}
    (same : ∀ block, (change block).fields = block.fields) :
    Maintains base.Inherits (update id change) :=
  .update fun _ inherits => inherits.modifyBlock same

theorem inherits_of_spliced {α : Type} {change : Revision Arena α}
    (spliced : ∀ arena, ∃ given, After change arena (fun _ => Spliced given arena)
      fun _ => Spliced given arena) : Maintains base.Inherits change := by
  intro arena inherits
  obtain ⟨given, ends⟩ := spliced arena
  exact ends.mono (fun _ _ => inherits.spliced) fun _ _ => inherits.spliced

theorem inherits_discard (root : String) : Maintains base.Inherits (discard root) :=
  inherits_of_spliced fun arena => ⟨fun _ => False, splices_discard root arena (.refl arena)⟩

theorem inherits_connect (source target : String) (placement : Placement) :
    Maintains base.Inherits (connect source target placement) :=
  inherits_of_spliced fun arena => ⟨_, spliced_connect arena source target placement⟩

theorem inherits_detach (id : String) : Maintains base.Inherits (detach id) :=
  inherits_of_spliced fun arena => ⟨fun _ => False, splices_detach id arena (.refl arena)⟩

theorem inherits_delete (id : String) : Maintains base.Inherits (delete id) :=
  inherits_of_spliced fun arena => ⟨_, spliced_delete arena id⟩

end Arena

namespace FieldWrite

variable {base : Arena}

theorem inherits_unplug (plug : Plug) :
    Maintains base.Inherits (modify (unplug · plug) : Revision Arena PUnit) := by
  apply Maintains.modify
  intro arena inherits
  have removed : base.Inherits (if plug.previous.shadow = some plug.shadow then arena
      else arena.remove plug.shadow) := by
    split
    · exact inherits
    · exact inherits.remove plug.shadow
  refine removed.modifyBlock fun block => ?_
  split <;> rfl

theorem inherits_plugNew (owner opcode : String) (isNew : Bool) (previous : Input) :
    Maintains base.Inherits (plugNew owner opcode isNew previous) := by
  refine (Maintains.check (shadowTemplate opcode previous.name)).bind ?_
  rintro ⟨shadowOpcode, field, template⟩ arena inherits
  rw [after_bind, Arena.after_newId, after_bind, after_modify]
  have counted : base.Inherits (arena.freshId "shadow").2 := inherits.of_get? fun _ => rfl
  have inserted := counted.insert (arena.freshId "shadow").1
    (Block.plain_newShadow owner shadowOpcode field template)
  simp only
  split
  · exact (inherits_unplug _).bind (fun _ => .throw _) _ inserted
  · refine Maintains.bind ?_ (fun _ => .pure _) _ inserted
    exact Arena.inherits_updateInputs owner fun block =>
      Block.fields_of_frame (block.frame_withInput previous.name _)

theorem inherits_replug (owner shadow : String) (block : Block) (previous : Input) :
    Maintains base.Inherits (replug owner shadow block previous) := by
  apply (Maintains.check (shadowField previous.name shadow block)).bind
  intro field
  refine Maintains.bind ?_ fun _ => .pure _
  exact Arena.inherits_updateInputs owner fun block =>
    Block.fields_of_frame (block.frame_withInput previous.name _)

theorem inherits_resolve (id name : String) : Maintains base.Inherits (resolve id name) :=
  maintains_resolve_of_plugs inherits_replug inherits_plugNew id name

end FieldWrite

namespace NewBlock

theorem Placed.plain {arena middle next : Arena} {spec : Catalog.BlockSpec} {id : String}
    {block : Block} {shadows : List (String × Block)}
    (placed : Placed arena spec id block shadows middle next) : block.Plain := by
  intro name field found
  rw [placed.fields] at found
  obtain ⟨entry, -, same⟩ := List.mem_map.mp (Dict.mem_of_get?_ofList found)
  rw [← (Prod.mk.inj same).2]
  rfl

theorem inherits_place {base : Arena} (project : Project) (target : Target)
    (spec : Catalog.BlockSpec) : Maintains base.Inherits (place project target spec) := by
  intro arena inherits
  apply (after_place project target spec arena).mono
  · rintro id next ⟨block, shadows, middle, placed⟩ other stored found
    rcases placed.get?_cases found with ⟨-, rfl⟩ | ⟨_, _, _, _, rfl, -⟩ | old
    · exact .inl placed.plain
    · exact .inl (Block.plain_newShadow _ _ _ _)
    · exact inherits other stored old
  · intro _ _ never
    exact never.elim

end NewBlock

end BlockGraph
