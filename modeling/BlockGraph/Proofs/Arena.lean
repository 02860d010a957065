import BlockGraph.Proofs.Identifier
import BlockGraph.Proofs.Revision

/-!
Views of an arena. What an arena says about its blocks is seen through lookups, parents and lists of
children; each small change has one lemma for what it does to them, and each step from which edits
are composed has one rule.
-/

set_option autoImplicit false

namespace BlockGraph

namespace Arena

/-- Parent of a stored block, if it has one. -/
def parent? (arena : Arena) (id : String) : Option String :=
  (arena.get? id).bind Block.parent

/-- The blocks that a stored block owns. -/
def childrenAt (arena : Arena) (id : String) : List String :=
  ((arena.get? id).map Block.childIds).getD []

variable {arena : Arena} {id other : String} {block : Block}

theorem parent?_of_get? (found : arena.get? id = some block) : arena.parent? id = block.parent := by
  simp [parent?, found]

theorem childrenAt_of_get? (found : arena.get? id = some block) :
    arena.childrenAt id = block.childIds := by
  simp [childrenAt, found]

theorem mem_childrenAt (found : arena.get? id = some block) (owned : other ∈ block.childIds) :
    other ∈ arena.childrenAt id := by
  rw [childrenAt_of_get? found]
  exact owned

theorem ne_of_fresh (fresh : arena.get? other = none) (found : arena.get? id = some block) :
    other ≠ id := by
  rintro rfl
  rw [fresh] at found
  cases found

theorem exists_of_parent? {owner : String} (link : arena.parent? id = some owner) :
    ∃ block, arena.get? id = some block ∧ block.parent = some owner :=
  Option.bind_eq_some_iff.mp link

theorem exists_of_mem_childrenAt (member : other ∈ arena.childrenAt id) :
    ∃ block, arena.get? id = some block ∧ other ∈ block.childIds := by
  cases found : arena.get? id with
  | none => simp [childrenAt, found] at member
  | some block => exact ⟨block, rfl, childrenAt_of_get? found ▸ member⟩

theorem mem_ids_iff : id ∈ arena.ids ↔ ∃ block, arena.get? id = some block := by
  rw [ids, ← Dict.contains_iff_mem_keys, Dict.contains, Option.isSome_iff_exists]
  rfl

theorem get?_eq_none_of_not_mem (absent : id ∉ arena.ids) : arena.get? id = none := by
  cases found : arena.get? id with
  | none => rfl
  | some block => exact absurd (mem_ids_of_get? found) absent

/-- Two arenas with the same lookups and scripts differ in the counter at most. -/
theorem eq_of_get? {first second : Arena} (same : ∀ id, first.get? id = second.get? id)
    (scripts : first.scripts = second.scripts) (counter : first.counter = second.counter) :
    first = second := by
  cases first
  cases second
  simp only [Arena.mk.injEq]
  exact ⟨Dict.ext_get? same, scripts, counter⟩

theorem modifyBlock_congr {first second : Block → Block} (found : arena.get? id = some block)
    (same : first block = second block) : arena.modifyBlock id first = arena.modifyBlock id second := by
  refine eq_of_get? (fun other => ?_) rfl rfl
  rw [get?_modifyBlock, get?_modifyBlock]
  by_cases hit : other = id
  · simp [hit, found, same]
  · simp [hit]

theorem exists_get?_modifyBlock (arena : Arena) (id : String) (change : Block → Block) (other : String) :
    (∃ block, (arena.modifyBlock id change).get? other = some block) ↔
      ∃ block, arena.get? other = some block := by
  rw [get?_modifyBlock]
  by_cases hit : other = id
  · cases arena.get? other <;> simp [hit]
  · simp [hit]

theorem modifyBlock_eq_self {change : Block → Block} (found : arena.get? id = some block)
    (same : change block = block) : arena.modifyBlock id change = arena := by
  refine eq_of_get? (fun other => ?_) rfl rfl
  rw [get?_modifyBlock]
  by_cases hit : other = id
  · simp [hit, found, same]
  · simp [hit]

theorem isSome_modifyBlock (arena : Arena) (id : String) (change : Block → Block) (other : String) :
    ((arena.modifyBlock id change).get? other).isSome = (arena.get? other).isSome := by
  rw [get?_modifyBlock]
  split <;> simp

theorem isSome_insert (arena : Arena) (id : String) (block : Block) (other : String) :
    ((arena.insert id block).get? other).isSome ↔ id = other ∨ (arena.get? other).isSome := by
  rw [get?_insert]
  split <;> simp [*]

theorem get?_setTopLevel (arena : Arena) (id : String) (topLevel : Bool) (other : String) :
    (arena.setTopLevel id topLevel).get? other =
      if other = id then
        (arena.get? other).map fun block =>
          if topLevel then { block with topLevel := true, parent := none }
          else { block with topLevel := false, x := none, y := none }
      else arena.get? other := by
  cases topLevel
  · exact arena.get?_modifyBlock id _ other
  · exact arena.get?_modifyBlock id _ other

theorem get?_removeAll (arena : Arena) (gone : List String) (other : String) :
    (arena.removeAll gone).get? other = if other ∈ gone then none else arena.get? other := by
  induction gone generalizing arena with
  | nil => simp [removeAll]
  | cons head rest ih =>
    have unfolded : arena.removeAll (head :: rest) = (arena.remove head).removeAll rest := rfl
    rw [unfolded, ih, get?_remove]
    by_cases later : other ∈ rest
    · simp [later]
    · by_cases same : other = head
      · simp [same]
      · simp [later, same, Ne.symm same]

theorem scripts_removeAll (arena : Arena) (gone : List String) :
    (arena.removeAll gone).scripts = arena.scripts.filter fun script => script ∉ gone := by
  induction gone generalizing arena with
  | nil => simp [removeAll]
  | cons head rest ih =>
    have unfolded : arena.removeAll (head :: rest) = (arena.remove head).removeAll rest := rfl
    rw [unfolded, ih]
    simp only [remove, withoutScript, List.filter_filter]
    refine List.filter_congr fun script _ => ?_
    simp [Bool.and_comm]

theorem counter_removeAll (arena : Arena) (gone : List String) :
    (arena.removeAll gone).counter = arena.counter := by
  induction gone generalizing arena with
  | nil => rfl
  | cons head rest ih => exact ih (arena.remove head)

/-- A generated id is not stored. -/
theorem get?_freshId (arena : Arena) (stem : String) : arena.get? (arena.freshId stem).1 = none :=
  get?_eq_none_of_not_mem (Identifier.make_freshNumber_not_mem arena.ids stem arena.counter)

section

variable {success : Unit → Arena → Prop} {failure : Fault → Arena → Prop}

open Revision

@[simp]
theorem after_stored (arena : Arena) (id : String) {success : Block → Arena → Prop} :
    After (stored id) arena success failure ↔
      (∀ block, arena.get? id = some block → success block arena) ∧
        (arena.get? id = none → failure (.damaged (.missingBlock id)) arena) := by
  cases found : arena.get? id <;> simp [stored, require, found]

@[simp]
theorem after_update (arena : Arena) (id : String) (change : Block → Block) :
    After (update id change) arena success failure ↔
      ((∃ block, arena.get? id = some block) → success ⟨⟩ (arena.modifyBlock id change)) ∧
        (arena.get? id = none → failure (.damaged (.missingBlock id)) arena) := by
  cases found : arena.get? id <;> simp [update, found]

@[simp]
theorem after_markTopLevel (arena : Arena) (id : String) (topLevel : Bool) :
    After (markTopLevel id topLevel) arena success failure ↔
      ((∃ block, arena.get? id = some block) → success ⟨⟩ (arena.setTopLevel id topLevel)) ∧
        (arena.get? id = none → failure (.damaged (.missingBlock id)) arena) := by
  cases found : arena.get? id <;> simp [markTopLevel, found]

section

variable {arena : Arena} {id : String} {block : Block}

/-- A block that is found is not missing, so looking it up or changing it does not fail. -/
theorem after_stored_of_get? (found : arena.get? id = some block) {success : Block → Arena → Prop} :
    After (stored id) arena success failure ↔ success block arena := by
  simp [found]

theorem after_update_of_get? (found : arena.get? id = some block) (change : Block → Block) :
    After (update id change) arena success failure ↔ success ⟨⟩ (arena.modifyBlock id change) := by
  simp [found]

theorem after_markTopLevel_of_get? (found : arena.get? id = some block) (topLevel : Bool) :
    After (markTopLevel id topLevel) arena success failure ↔
      success ⟨⟩ (arena.setTopLevel id topLevel) := by
  simp [found]

end

@[simp]
theorem after_newId (arena : Arena) (stem : String) {success : String → Arena → Prop} :
    After (newId stem) arena success failure ↔
      success (arena.freshId stem).1 (arena.freshId stem).2 := Iff.rfl

@[simp]
theorem after_discard (arena : Arena) (root : String) {success : List String → Arena → Prop} :
    After (discard root) arena success failure ↔
      (∀ gone, arena.subtreeIds root = .ok gone → success gone (arena.removeAll gone)) ∧
        ∀ damage, arena.subtreeIds root = .error damage → failure (.damaged damage) arena := by
  cases found : arena.subtreeIds root with
  | ok gone =>
    have disposed : arena.dispose root = .ok (gone, arena.removeAll gone) := by
      rw [dispose, found]
      rfl
    simp [discard, disposed]
  | error damage =>
    have refused : arena.dispose root = .error damage := by
      rw [dispose, found]
      rfl
    simp [discard, refused]

end

end Arena

namespace Revision.Maintains

variable {invariant : Arena → Prop}

theorem stored (id : String) : Maintains invariant (Arena.stored id) := by
  intro arena holds
  rw [Arena.after_stored]
  exact ⟨fun _ _ => holds, fun _ => holds⟩

theorem update {id : String} {change : Block → Block}
    (keeps : ∀ arena, invariant arena → invariant (arena.modifyBlock id change)) :
    Maintains invariant (Arena.update id change) := by
  intro arena holds
  rw [Arena.after_update]
  exact ⟨fun _ => keeps arena holds, fun _ => holds⟩

end Revision.Maintains

end BlockGraph
