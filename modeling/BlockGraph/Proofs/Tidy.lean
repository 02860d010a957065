import BlockGraph.Edit.NewBlock
import BlockGraph.Edit.Splice
import BlockGraph.Proofs.Arena
import BlockGraph.Proofs.Slots

/-!
Tidy arenas: every block is tidy, and the list of scripts mirrors the marks of the top-level blocks.
This needs no order in the links, so every edit keeps it, also one that fails on damaged links.
-/

set_option autoImplicit false

namespace BlockGraph

open Revision

namespace Block

variable {block changed : Block}

namespace Tidy

theorem of_frame (tidy : block.Tidy) (frame : changed.frame = block.frame)
    (names : changed.inputs.map Input.name = block.inputs.map Input.name) : changed.Tidy where
  distinctInputs := names ▸ tidy.distinctInputs
  valueInputs input member := by
    have named : input.name ∈ block.inputs.map Input.name :=
      names ▸ List.mem_map_of_mem member
    obtain ⟨other, inside, same⟩ := List.mem_map.mp named
    exact same ▸ tidy.valueInputs other inside
  placed below := by
    rw [(place_of_frame frame).1, (place_of_frame frame).2]
    exact tidy.placed (topLevel_of_frame frame ▸ below)

/-- An input may be changed or added under a name that is not that of a branch. -/
theorem withInput (tidy : block.Tidy) {name : String} {change : Input → Input}
    (isValue : Branch.ofName? name = none) (keeps : ∀ input, (change input).name = input.name) :
    (block.withInput name change).Tidy := by
  rcases block.withInput_eq name change with ⟨slot, found, same⟩ | ⟨missing, same⟩
  · rw [same]
    exact tidy.of_frame rfl (Input.map_name_modifyFirst _ change (fun input _ => keeps input) _)
  · rw [same]
    refine ⟨?_, ?_, tidy.placed⟩
    · have isNew : name ∉ block.inputs.map Input.name := by
        intro member
        obtain ⟨input, inside, rfl⟩ := List.mem_map.mp member
        exact absurd (List.find?_eq_none.mp missing input inside) (by simp)
      simp only [List.map_append, List.map_cons, List.map_nil, keeps, Input.empty]
      exact List.nodup_append.mpr ⟨tidy.distinctInputs, List.nodup_singleton _, by
        rintro other inside _ last rfl
        exact isNew (List.mem_singleton.mp last ▸ inside)⟩
    · intro input member
      rcases List.mem_append.mp member with old | new
      · exact tidy.valueInputs input old
      · rw [List.mem_singleton.mp new, keeps]
        exact isValue

theorem withoutInput (tidy : block.Tidy) (name : String) : (block.withoutInput name).Tidy where
  distinctInputs := tidy.distinctInputs.sublist (List.filter_sublist.map _)
  valueInputs input member := tidy.valueInputs input (List.mem_of_mem_filter member)
  placed := tidy.placed

theorem modifyInput (tidy : block.Tidy) {name : String} {change : Input → Input}
    (keeps : ∀ input, input.name = name → (change input).name = input.name) :
    (block.modifyInput name change).Tidy :=
  tidy.of_frame rfl
    (Input.map_name_modifyFirst _ change (fun input hit => keeps input (by simpa using hit)) _)

end Tidy

end Block

namespace Arena

/-- Every block is tidy, and the scripts are the top-level blocks, each listed once. -/
structure Tidy (arena : Arena) : Prop where
  blocks : ∀ id block, arena.get? id = some block → block.Tidy
  distinctScripts : arena.scripts.Nodup
  mem_scripts : ∀ id, id ∈ arena.scripts ↔
    ∃ block, arena.get? id = some block ∧ block.topLevel = true

theorem mem_withScript {scripts : List String} {id other : String} :
    other ∈ withScript scripts id ↔ other ∈ scripts ∨ other = id := by
  rw [withScript]
  split
  · rename_i listed
    refine ⟨.inl, fun member => ?_⟩
    rcases member with old | rfl
    · exact old
    · simpa using listed
  · simp

theorem nodup_withScript {scripts : List String} (distinct : scripts.Nodup) (id : String) :
    (withScript scripts id).Nodup := by
  rw [withScript]
  split
  · exact distinct
  · rename_i unlisted
    refine List.nodup_append.mpr ⟨distinct, List.nodup_singleton id, ?_⟩
    rintro other old _ new rfl
    exact unlisted (by simpa using List.mem_singleton.mp new ▸ old)

theorem mem_withoutScript {scripts : List String} {id other : String} :
    other ∈ withoutScript scripts id ↔ other ∈ scripts ∧ other ≠ id := by
  simp [withoutScript]

section

variable {arena : Arena} {id : String}

theorem nodup_scripts_insert (distinct : arena.scripts.Nodup) (id : String) (block : Block) :
    (arena.insert id block).scripts.Nodup := by
  rw [insert]
  split
  · exact nodup_withScript distinct id
  · exact distinct

theorem nodup_scripts_setTopLevel (distinct : arena.scripts.Nodup) (id : String) (topLevel : Bool) :
    (arena.setTopLevel id topLevel).scripts.Nodup := by
  cases topLevel
  · exact distinct.sublist List.filter_sublist
  · exact nodup_withScript distinct id

/-- How an arena keeps an id: whether it is a script, and the mark of the block under it. -/
def standing (arena : Arena) (id : String) : Bool × Option Bool :=
  (arena.scripts.contains id, (arena.get? id).map Block.topLevel)

/-- The id is a script exactly when a top-level block is stored under it. -/
def Mirrors (arena : Arena) (id : String) : Prop :=
  id ∈ arena.scripts ↔ ∃ block, arena.get? id = some block ∧ block.topLevel = true

theorem mirrors_iff :
    arena.Mirrors id ↔ (arena.standing id).1 = (arena.standing id).2.getD false := by
  rw [Mirrors, Bool.eq_iff_iff]
  cases found : arena.get? id <;> simp [standing, found]

theorem standing_insert (arena : Arena) (id : String) (block : Block) (other : String) :
    (arena.insert id block).standing other =
      if other = id then ((arena.standing id).1 || block.topLevel, some block.topLevel)
      else arena.standing other := by
  have listed : (arena.insert id block).scripts.contains other =
      (arena.scripts.contains other || (decide (other = id) && block.topLevel)) := by
    rw [Bool.eq_iff_iff]
    cases top : block.topLevel <;> simp [insert, top, mem_withScript]
  simp only [standing, listed, get?_insert]
  by_cases same : other = id
  · simp [same]
  · simp [same, Ne.symm same]

theorem standing_removeAll (arena : Arena) (gone : List String) (other : String) :
    (arena.removeAll gone).standing other =
      if other ∈ gone then (false, none) else arena.standing other := by
  simp only [standing, scripts_removeAll, get?_removeAll]
  by_cases removed : other ∈ gone <;> simp [removed]

theorem standing_setTopLevel {block : Block} (found : arena.get? id = some block) (topLevel : Bool)
    (other : String) : (arena.setTopLevel id topLevel).standing other =
      if other = id then (topLevel, some topLevel) else arena.standing other := by
  have listed : (arena.setTopLevel id topLevel).scripts.contains other =
      if other = id then topLevel else arena.scripts.contains other := by
    rw [Bool.eq_iff_iff]
    cases topLevel <;> by_cases same : other = id <;>
      simp [setTopLevel, mem_withScript, mem_withoutScript, same]
  simp only [standing, listed, get?_setTopLevel]
  by_cases same : other = id
  · subst same
    cases topLevel <;> simp [found]
  · simp [same]

end

namespace Tidy

variable {arena : Arena} {id : String} {block : Block}

theorem empty : ({} : Arena).Tidy where
  blocks _ _ found := by cases found
  distinctScripts := List.nodup_nil
  mem_scripts id := by
    refine ⟨by simp, ?_⟩
    rintro ⟨block, found, -⟩
    cases found

/-- Only lookups and scripts count. -/
theorem of_same {other : Arena} (tidy : arena.Tidy) (same : ∀ id, other.get? id = arena.get? id)
    (scripts : other.scripts = arena.scripts) : other.Tidy where
  blocks id block found := tidy.blocks id block (same id ▸ found)
  distinctScripts := scripts ▸ tidy.distinctScripts
  mem_scripts id := by
    rw [scripts, same]
    exact tidy.mem_scripts id

theorem not_mem_scripts (tidy : arena.Tidy) (missing : arena.get? id = none) :
    id ∉ arena.scripts := by
  intro listed
  obtain ⟨block, found, -⟩ := (tidy.mem_scripts id).mp listed
  cases missing.symm.trans found

theorem freshId (tidy : arena.Tidy) (stem : String) : (arena.freshId stem).2.Tidy :=
  tidy.of_same (fun _ => rfl) rfl

/-- A change of one block that leaves it tidy and does not touch its mark. -/
theorem modifyBlock (tidy : arena.Tidy) {change : Block → Block}
    (keeps : ∀ block, arena.get? id = some block →
      (change block).Tidy ∧ (change block).topLevel = block.topLevel) :
    (arena.modifyBlock id change).Tidy where
  blocks other block found := by
    rw [get?_modifyBlock] at found
    split at found
    · rename_i same
      subst same
      obtain ⟨old, stored, rfl⟩ := Option.map_eq_some_iff.mp found
      exact (keeps old stored).1
    · exact tidy.blocks other block found
  distinctScripts := tidy.distinctScripts
  mem_scripts other := by
    refine (tidy.mem_scripts other).trans ?_
    rw [get?_modifyBlock]
    split
    · rename_i same
      subst same
      constructor
      · rintro ⟨old, found, top⟩
        exact ⟨change old, by simp [found], ((keeps old found).2).trans top⟩
      · rintro ⟨new, found, top⟩
        obtain ⟨old, stored, rfl⟩ := Option.map_eq_some_iff.mp found
        exact ⟨old, stored, ((keeps old stored).2).symm.trans top⟩
    · exact Iff.rfl

theorem setTopLevel (tidy : arena.Tidy) (found : arena.get? id = some block) (topLevel : Bool) :
    (arena.setTopLevel id topLevel).Tidy where
  blocks other changed lookup := by
    rw [get?_setTopLevel] at lookup
    split at lookup
    · rename_i same
      subst same
      rw [found] at lookup
      obtain rfl := Option.some.inj lookup
      have old := tidy.blocks other block found
      cases topLevel
      · exact ⟨old.distinctInputs, old.valueInputs, fun _ => ⟨rfl, rfl⟩⟩
      · exact ⟨old.distinctInputs, old.valueInputs, by simp⟩
    · exact tidy.blocks other changed lookup
  distinctScripts := nodup_scripts_setTopLevel tidy.distinctScripts id topLevel
  mem_scripts other := by
    apply mirrors_iff.mpr
    rw [standing_setTopLevel found]
    split
    · rfl
    · exact mirrors_iff.mp (tidy.mem_scripts other)

/-- A block under a new id. -/
theorem insert (tidy : arena.Tidy) (isNew : arena.get? id = none) (blockTidy : block.Tidy) :
    (arena.insert id block).Tidy where
  blocks other changed lookup := by
    rw [get?_insert] at lookup
    split at lookup
    · obtain rfl := Option.some.inj lookup
      exact blockTidy
    · exact tidy.blocks other changed lookup
  distinctScripts := nodup_scripts_insert tidy.distinctScripts id block
  mem_scripts other := by
    apply mirrors_iff.mpr
    rw [standing_insert]
    split
    · -- Nothing is stored under the id, so it is no script yet.
      have unlisted : (arena.standing id).1 = false := by
        rw [mirrors_iff.mp (tidy.mem_scripts id), standing, isNew]
        rfl
      rw [unlisted]
      exact Bool.false_or _
    · exact mirrors_iff.mp (tidy.mem_scripts other)

theorem removeAll (tidy : arena.Tidy) (gone : List String) : (arena.removeAll gone).Tidy where
  blocks other block found := by
    rw [get?_removeAll] at found
    split at found
    · cases found
    · exact tidy.blocks other block found
  distinctScripts := by
    rw [scripts_removeAll]
    exact tidy.distinctScripts.sublist List.filter_sublist
  mem_scripts other := by
    apply mirrors_iff.mpr
    rw [standing_removeAll]
    split
    · rfl
    · exact mirrors_iff.mp (tidy.mem_scripts other)

theorem remove (tidy : arena.Tidy) (id : String) : (arena.remove id).Tidy :=
  tidy.removeAll [id]

end Tidy

end Arena

end BlockGraph
