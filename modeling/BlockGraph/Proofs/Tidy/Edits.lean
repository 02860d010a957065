import BlockGraph.Proofs.NewBlock
import BlockGraph.Proofs.Steps
import BlockGraph.Proofs.Tidy

/-!
Every edit of the blocks of a target keeps them tidy, whether it succeeds or fails.
-/

set_option autoImplicit false

namespace BlockGraph

open Revision

namespace Arena

theorem maintains_update (id : String) {change : Block → Block}
    (keeps : ∀ block, block.Tidy →
      (change block).Tidy ∧ (change block).topLevel = block.topLevel) :
    Maintains Tidy (update id change) := by
  apply Maintains.update
  intro arena tidy
  exact tidy.modifyBlock fun block found => keeps block (tidy.blocks id block found)

theorem maintains_setParent (id : String) (parent : Option String) :
    Maintains Tidy (update id ({ · with parent := parent })) :=
  maintains_update id fun _ tidy =>
    ⟨⟨tidy.distinctInputs, tidy.valueInputs, tidy.placed⟩, rfl⟩

theorem maintains_setNext (id : String) (next : Option String) :
    Maintains Tidy (update id ({ · with next := next })) :=
  maintains_update id fun _ tidy => ⟨tidy.of_frame rfl rfl, rfl⟩

theorem maintains_markTopLevel (id : String) (topLevel : Bool) :
    Maintains Tidy (markTopLevel id topLevel) := by
  intro arena tidy
  rw [after_markTopLevel]
  refine ⟨?_, fun _ => tidy⟩
  rintro ⟨block, found⟩
  exact tidy.setTopLevel found topLevel

theorem maintains_discard (root : String) : Maintains Tidy (discard root) := by
  intro arena tidy
  rw [after_discard]
  exact ⟨fun gone _ => tidy.removeAll gone, fun _ _ => tidy⟩

theorem maintains_relink (parent old : String) (new : Option String) :
    Maintains Tidy (relink parent old new) := by
  intro arena tidy
  apply after_relink
  · intro owner changed found replaced
    obtain ⟨frame, names⟩ := Block.frame_of_replaceChild? replaced
    refine tidy.modifyBlock fun old lookup => ?_
    obtain rfl := Option.some.inj (found.symm.trans lookup)
    exact ⟨(tidy.blocks parent owner found).of_frame frame names, Block.topLevel_of_frame frame⟩
  · intro _ _
    exact tidy

theorem maintains_unlink (id : String) : Maintains Tidy (unlink id) := by
  apply (Maintains.stored id).bind
  intro block
  cases block.parent with
  | none => exact .pure _
  | some parent => exact (maintains_relink parent id none).bind fun _ => maintains_setParent id none

theorem maintains_reattach (head : String) (displaced : Option String) :
    Maintains Tidy (reattach head displaced) := by
  cases displaced with
  | none => exact .pure _
  | some displaced =>
    apply Maintains.bind_get
    intro arena tidy
    refine (Maintains.follow (arena.tailOf head)).bind (fun tail => ?_) arena tidy
    exact (maintains_setNext tail (some displaced)).bind fun _ =>
      maintains_setParent displaced (some tail)

theorem maintains_attach {owner : Block} {arena : Arena} {placement : Placement}
    (isOpen : arena.Open owner placement) (source target : String) :
    Maintains Tidy (attach source target placement) := by
  apply (Maintains.stored target).bind
  intro owner
  cases placement with
  | stackAfter =>
    exact (maintains_setNext target (some source)).bind fun _ => maintains_reattach source owner.next
  | statementInto input =>
    obtain ⟨branch, named⟩ := isOpen
    simp only [named]
    refine Maintains.bind ?_ fun _ => maintains_reattach source (owner.branch branch)
    exact maintains_update target fun block tidy => ⟨tidy.of_frame rfl rfl, rfl⟩
  | valueInto input =>
    refine maintains_update target fun block tidy => ⟨tidy.withInput isOpen.1 fun _ => rfl, ?_⟩
    exact Block.topLevel_of_frame (block.frame_withInput input _)

theorem maintains_connect (source target : String) (placement : Placement) :
    Maintains Tidy (connect source target placement) := by
  apply Maintains.bind_get
  intro arena tidy
  rw [after_bind, after_check]
  refine ⟨fun _ passed => ?_, fun _ _ => tidy⟩
  obtain ⟨moved, owner, subtree, placeable⟩ := placeable_of_check passed
  have moves := (maintains_unlink source).bind fun _ =>
    (maintains_markTopLevel source false).bind fun _ =>
      (maintains_setParent source (some target)).bind fun _ =>
        maintains_attach placeable.isOpen source target
  exact moves arena tidy

theorem Tidy.insertAll {arena : Arena} (tidy : arena.Tidy) {entries : List (String × Block)}
    (distinct : (entries.map Prod.fst).Nodup)
    (isNew : ∀ entry ∈ entries, arena.get? entry.1 = none ∧ entry.2.Tidy) :
    (arena.insertAll entries).Tidy := by
  induction entries generalizing arena with
  | nil => exact tidy
  | cons entry rest ih =>
    have keys := List.nodup_cons.mp distinct
    have first := isNew entry List.mem_cons_self
    apply ih (tidy.insert first.1 first.2) keys.2
    intro other later
    have different : entry.1 ≠ other.1 := fun same =>
      keys.1 (same ▸ List.mem_map_of_mem later)
    have old := isNew other (List.mem_cons_of_mem _ later)
    rw [get?_insert, if_neg different]
    exact old

/-- Only the top of a script may be given a place. -/
theorem Tidy.setPlace {arena : Arena} (tidy : arena.Tidy) {id : String}
    (tops : ∀ block, arena.get? id = some block → block.topLevel = true)
    (x y : Option Binary64) :
    (arena.modifyBlock id fun block => { block with x := x, y := y }).Tidy := by
  refine tidy.modifyBlock fun block found => ⟨?_, rfl⟩
  have old := tidy.blocks id block found
  refine ⟨old.distinctInputs, old.valueInputs, fun below => ?_⟩
  simp [tops block found] at below

theorem maintains_markPlaced (id : String) (x y : Option Binary64) :
    Maintains Tidy (do
      markTopLevel id true
      update id ({ · with x := x, y := y })) := by
  intro arena tidy
  rw [after_bind, after_markTopLevel]
  refine ⟨?_, fun _ => tidy⟩
  rintro ⟨block, found⟩
  have marked := tidy.setTopLevel found true
  rw [after_update]
  refine ⟨fun _ => marked.setPlace ?_ x y, fun _ => marked⟩
  intro changed lookup
  rw [get?_setTopLevel, found] at lookup
  simp only [if_true, Option.map_some, Option.some.injEq] at lookup
  rw [← lookup]

theorem maintains_detach (id : String) : Maintains Tidy (detach id) := by
  apply Maintains.bind_get
  intro arena tidy
  refine (Maintains.check (arena.movable .source id)).bind (fun block => ?_) arena tidy
  simp only
  split
  · apply Maintains.bind_get
    intro arena tidy
    have moves := (maintains_unlink id).bind fun _ =>
      maintains_markPlaced id (some Binary64.zero) (some arena.nextScriptHeight)
    have ends : Maintains Tidy (pure block.parent : Revision Arena (Option String)) := .pure _
    simpa only [bind_assoc] using moves.bind (fun _ => ends) arena tidy
  · exact .pure _

theorem maintains_delete (id : String) : Maintains Tidy (delete id) := by
  apply Maintains.bind_get
  intro arena tidy
  refine (Maintains.check (arena.movable .target id)).bind (fun block => ?_) arena tidy
  have discards : Maintains Tidy (do
      let removed ← discard id
      return (⟨block.opcode, block.topLevel, removed⟩ : Deletion)) :=
    (maintains_discard id).bind fun _ => .pure _
  have lifts (next : String) : Maintains Tidy (do
      update next ({ · with parent := block.parent })
      update id ({ · with next := none })
      let removed ← discard id
      return (⟨block.opcode, block.topLevel, removed⟩ : Deletion)) :=
    (maintains_setParent next block.parent).bind fun _ =>
      (maintains_setNext id none).bind fun _ => discards
  cases up : block.parent with
  | some parent =>
    apply (maintains_relink parent id block.next).bind
    intro _
    cases down : block.next with
    | none => exact discards
    | some next => exact up ▸ lifts next
  | none =>
    cases down : block.next with
    | none => exact (Maintains.pure ()).bind fun _ => discards
    | some next =>
      have moves := (maintains_markPlaced next block.x block.y).bind fun _ => up ▸ lifts next
      simpa only [bind_assoc] using moves

end Arena

namespace FieldWrite

theorem maintains_unplug (plug : Plug) :
    Maintains Arena.Tidy (modify (unplug · plug) : Revision Arena PUnit) := by
  apply Maintains.modify
  intro arena tidy
  have removed : Arena.Tidy (if plug.previous.shadow = some plug.shadow then arena
      else arena.remove plug.shadow) := by
    split
    · exact tidy
    · exact tidy.remove plug.shadow
  refine removed.modifyBlock fun owner found => ?_
  have ownerTidy := removed.blocks plug.owner owner found
  split
  · exact ⟨ownerTidy.withoutInput plug.previous.name, rfl⟩
  · exact ⟨ownerTidy.modifyInput fun input named => named.symm, rfl⟩

theorem maintains_plugNew (owner opcode : String) (isNew : Bool) {previous : Input}
    (isValue : Branch.ofName? previous.name = none) :
    Maintains Arena.Tidy (plugNew owner opcode isNew previous) := by
  refine (Maintains.check (shadowTemplate opcode previous.name)).bind ?_
  rintro ⟨shadowOpcode, field, template⟩ arena tidy
  rw [after_bind, Arena.after_newId, after_bind, after_modify]
  have inserted := (tidy.freshId "shadow").insert (arena.get?_freshId "shadow")
    (Block.tidy_newShadow owner shadowOpcode field template)
  simp only
  split
  · exact (maintains_unplug _).bind (fun _ => .throw _) _ inserted
  · refine Maintains.bind ?_ (fun _ => .pure _) _ inserted
    refine Arena.maintains_update owner fun block tidy => ⟨tidy.withInput isValue fun _ => rfl, ?_⟩
    exact Block.topLevel_of_frame (block.frame_withInput previous.name _)

theorem maintains_replug (owner shadow : String) (block : Block) {previous : Input}
    (isValue : Branch.ofName? previous.name = none) :
    Maintains Arena.Tidy (replug owner shadow block previous) := by
  apply (Maintains.check (shadowField previous.name shadow block)).bind
  intro field
  refine Maintains.bind ?_ fun _ => .pure _
  refine Arena.maintains_update owner fun block tidy => ⟨tidy.withInput isValue fun _ => rfl, ?_⟩
  exact Block.topLevel_of_frame (block.frame_withInput previous.name _)

theorem maintains_resolve (id name : String) : Maintains Arena.Tidy (resolve id name) := by
  intro arena tidy
  apply after_resolve_of_leads
  intro revision leads
  cases leads with
  | missing => exact tidy
  | own => exact tidy
  | plugged =>
    refine (Maintains.stored _).bind (fun held => ?_) arena tidy
    exact (Maintains.check _).bind fun _ => .pure _
  | owned found _ slot =>
    have isValue := (tidy.blocks id _ found).valueInputs _ (List.mem_of_find?_eq_some slot)
    exact maintains_replug id _ _ isValue arena tidy
  | bare found _ slot =>
    have isValue := (tidy.blocks id _ found).valueInputs _ (List.mem_of_find?_eq_some slot)
    exact maintains_plugNew id _ false isValue arena tidy
  | expected _ _ _ expected =>
    have isValue := Catalog.valueInput_of_expected (by simpa using expected)
    exact maintains_plugNew id _ true isValue arena tidy
  | unavailable => exact tidy

end FieldWrite

namespace NewBlock

theorem Templated.value_inputs {arena next : Arena} {owner : String} {spec : Catalog.BlockSpec}
    {inputs : List Input} {shadows : List (String × Block)}
    (made : Templated arena next owner spec.inputs inputs shadows) (listed : spec ∈ Catalog.specs) :
    ∀ input ∈ inputs, Branch.ofName? input.name = none := by
  intro input member
  have named : input.name ∈ spec.inputs.map Catalog.InputSpec.name := by
    rw [← made.names]
    exact List.mem_map_of_mem member
  obtain ⟨declared, inside, same⟩ := List.mem_map.mp named
  exact same ▸ Catalog.specs_valueInputs spec listed declared inside

theorem Placed.tidy {arena middle next : Arena} {spec : Catalog.BlockSpec} {id : String}
    {block : Block} {shadows : List (String × Block)}
    (placed : Placed arena spec id block shadows middle next) (listed : spec ∈ Catalog.specs)
    (tidy : arena.Tidy) : next.Tidy := by
  have made := placed.templated
  have middleTidy : middle.Tidy := tidy.of_same made.lookups made.scripts
  have blockTidy : block.Tidy := by
    refine ⟨?_, made.value_inputs listed, ?_⟩
    · rw [made.names]
      exact Catalog.specs_distinctInputs spec listed
    · simp [placed.topLevel]
  have stored := middleTidy.insert ((made.lookups id).trans placed.fresh) blockTidy
  rw [placed.result]
  refine stored.insertAll made.distinct ?_
  intro entry member
  obtain ⟨opcode, field, value, same, -⟩ := made.blocks entry member
  have different : id ≠ entry.1 := fun same =>
    placed.apart (same ▸ List.mem_map_of_mem member)
  refine ⟨?_, same ▸ Block.tidy_newShadow id opcode field value⟩
  rw [Arena.get?_insert, if_neg different, made.lookups]
  exact (made.fresh entry member).1

theorem maintains_place (project : Project) (target : Target) {spec : Catalog.BlockSpec}
    (listed : spec ∈ Catalog.specs) : Maintains Arena.Tidy (place project target spec) := by
  intro arena tidy
  apply (after_place project target spec arena).mono
  · rintro id next ⟨block, shadows, middle, placed⟩
    exact placed.tidy listed tidy
  · intro _ _ never
    exact never.elim

end NewBlock

end BlockGraph
