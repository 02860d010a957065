import BlockGraph.Proofs.Tidy
import BlockGraph.Proofs.Traversal

/-!
Well-linked arenas. Each block that is owned is stored and owned once, by its parent; the ways up
end; the scripts are the blocks without a parent; and shadows stand in value inputs only. The links
of such an arena are a forest, and a change of one block is seen in the lists of children, in the
parents and in the fit of the shadows.
-/

set_option autoImplicit false

namespace BlockGraph.Arena

open Forest

/-- A stored block of a shadow type. -/
def IsShadow (arena : Arena) (id : String) : Prop :=
  ∃ block, arena.get? id = some block ∧ Catalog.kind block.opcode = .shadow

/-- Shadows fit into every block. -/
def Fitted (arena : Arena) : Prop :=
  ∀ id block, arena.get? id = some block → block.Fits arena.IsShadow

/-- The links are those of trees: each block that is owned is stored and owned once, by its parent, and
the ways up end. -/
structure Trees (arena : Arena) : Prop where
  stored : ∀ owner, ∀ id ∈ arena.childrenAt owner, id ∈ arena.ids
  once : (arena.ids.flatMap arena.childrenAt).Nodup
  parent_iff : ∀ id block, arena.get? id = some block →
    ∀ owner, block.parent = some owner ↔ id ∈ arena.childrenAt owner
  rooted : ∀ id ∈ arena.ids, Rooted arena.parent? id

structure WellLinked (arena : Arena) : Prop where
  /-- Whatever a block owns is stored. -/
  stored : ∀ owner, ∀ id ∈ arena.childrenAt owner, id ∈ arena.ids
  /-- No block is owned twice. -/
  once : (arena.ids.flatMap arena.childrenAt).Nodup
  parent_iff : ∀ id block, arena.get? id = some block →
    ∀ owner, block.parent = some owner ↔ id ∈ arena.childrenAt owner
  rooted : ∀ id ∈ arena.ids, Rooted arena.parent? id
  top_iff : ∀ id block, arena.get? id = some block →
    (block.topLevel = true ↔ block.parent = none)
  tidy : arena.Tidy
  fitted : arena.Fitted

variable {arena : Arena} {id other : String} {block : Block} {change : Block → Block}

theorem IsShadow.kind (found : arena.get? id = some block) :
    arena.IsShadow id ↔ Catalog.kind block.opcode = .shadow := by
  constructor
  · rintro ⟨same, lookup, kind⟩
    obtain rfl := Option.some.inj (found.symm.trans lookup)
    exact kind
  · intro kind
    exact ⟨block, found, kind⟩

theorem not_isShadow (found : arena.get? id = some block)
    (solid : Catalog.kind block.opcode ≠ .shadow) : ¬arena.IsShadow id := by
  rw [IsShadow.kind found]
  exact solid

theorem Trees.forest (trees : arena.Trees) : Linked arena.childrenAt arena.parent? where
  distinct owner := by
    by_cases known : owner ∈ arena.ids
    · exact (List.nodup_flatMap.mp trees.once).1 owner known
    · simp [childrenAt, get?_eq_none_of_not_mem known]
  parent_iff owner id := by
    constructor
    · intro link
      obtain ⟨block, found, up⟩ := exists_of_parent? link
      exact (trees.parent_iff id block found owner).mp up
    · intro member
      obtain ⟨block, found⟩ := mem_ids_iff.mp (trees.stored owner id member)
      rw [parent?_of_get? found]
      exact (trees.parent_iff id block found owner).mpr member
  rooted id := by
    by_cases known : id ∈ arena.ids
    · exact trees.rooted id known
    · exact .top (by simp [parent?, get?_eq_none_of_not_mem known])

namespace WellLinked

theorem trees (linked : arena.WellLinked) : arena.Trees :=
  ⟨linked.stored, linked.once, linked.parent_iff, linked.rooted⟩

theorem forest (linked : arena.WellLinked) : Linked arena.childrenAt arena.parent? :=
  linked.trees.forest

theorem tops (linked : arena.WellLinked) (found : arena.get? id = some block) :
    id ∈ arena.scripts ↔ arena.parent? id = none := by
  rw [linked.tidy.mem_scripts, parent?_of_get? found, ← linked.top_iff id block found]
  constructor
  · rintro ⟨same, lookup, top⟩
    obtain rfl := Option.some.inj (found.symm.trans lookup)
    exact top
  · intro top
    exact ⟨block, found, top⟩

theorem not_script_of_parent? (linked : arena.WellLinked) {owner : String}
    (link : arena.parent? id = some owner) : id ∉ arena.scripts := by
  intro listed
  obtain ⟨block, found, -⟩ := exists_of_parent? link
  rw [(linked.tops found).mp listed] at link
  cases link

theorem found_of_mem (linked : arena.WellLinked) {owner : String}
    (member : id ∈ arena.childrenAt owner) : ∃ block, arena.get? id = some block :=
  mem_ids_iff.mp (linked.stored owner id member)

end WellLinked

/-- The links are a forest with the scripts as its roots, into which the shadows fit. -/
structure Knit (arena : Arena) : Prop where
  forest : Linked arena.childrenAt arena.parent?
  tops : ∀ id, (∃ block, arena.get? id = some block) →
    (id ∈ arena.scripts ↔ arena.parent? id = none)
  fitted : arena.Fitted

theorem WellLinked.knit (linked : arena.WellLinked) : arena.Knit :=
  ⟨linked.forest, fun _ ⟨_, found⟩ => linked.tops found, linked.fitted⟩

theorem Knit.wellLinked (knit : arena.Knit) (tidy : arena.Tidy) : arena.WellLinked where
  stored owner id member := by
    obtain ⟨block, found, -⟩ := exists_of_parent? (knit.forest.parent_of_mem member)
    exact mem_ids_of_get? found
  once := by
    apply List.nodup_flatMap.mpr
    refine ⟨fun owner _ => knit.forest.distinct owner, ?_⟩
    refine (arena.blocks.sorted.imp ?_).map Prod.fst fun _ _ => id
    intro first second less id left right
    have same := (knit.forest.parent_of_mem left).symm.trans (knit.forest.parent_of_mem right)
    rw [Option.some.inj same] at less
    exact String.lt_irrefl _ less
  parent_iff id block found owner := by
    rw [← knit.forest.parent_iff, parent?_of_get? found]
  rooted id _ := knit.forest.rooted id
  top_iff id block found := by
    rw [← parent?_of_get? found, ← knit.tops id ⟨block, found⟩, tidy.mem_scripts]
    constructor
    · intro top
      exact ⟨block, found, top⟩
    · rintro ⟨same, lookup, top⟩
      obtain rfl := Option.some.inj (found.symm.trans lookup)
      exact top
  tidy := tidy
  fitted := knit.fitted

theorem wellLinked_empty : ({} : Arena).WellLinked where
  stored owner id member := by cases member
  once := List.nodup_nil
  parent_iff id block found := by cases found
  rooted id _ := .top rfl
  top_iff id block found := by cases found
  tidy := .empty
  fitted id block found := by cases found

/-- The way up from a block ends within a number of steps. -/
def climbs (arena : Arena) : Nat → String → Bool
  | 0, _ => false
  | steps + 1, id =>
    match arena.parent? id with
    | none => true
    | some above => arena.climbs steps above

theorem rooted_of_climbs {steps : Nat} (climbs : arena.climbs steps id = true) :
    Rooted arena.parent? id := by
  induction steps generalizing id with
  | zero => cases climbs
  | succ steps ih =>
    rw [Arena.climbs] at climbs
    split at climbs
    · rename_i top
      exact .top top
    · rename_i above up
      exact .under up (ih climbs)

instance decidableIsShadow (arena : Arena) (id : String) : Decidable (arena.IsShadow id) :=
  match found : arena.get? id with
  | none => .isFalse fun ⟨_, lookup, _⟩ => by cases found.symm.trans lookup
  | some _ => decidable_of_iff _ (IsShadow.kind found).symm

/-- The conditions on one stored block of a well-linked arena, all of which can be computed. -/
def Sound (arena : Arena) (id : String) (block : Block) : Prop :=
  ((∀ child ∈ block.childIds, arena.parent? child = some id) ∧
    (∀ owner ∈ block.parent, id ∈ arena.childrenAt owner) ∧ arena.climbs arena.size id = true) ∧
  ((block.topLevel = true ↔ block.parent = none) ∧ (block.topLevel = true ↔ id ∈ arena.scripts)) ∧
  ((block.inputs.map Input.name).Nodup ∧
    (∀ input ∈ block.inputs, Branch.ofName? input.name = none) ∧
    (block.topLevel = false → block.x = none ∧ block.y = none)) ∧
  (∀ child ∈ block.next, ¬arena.IsShadow child) ∧
  (∀ branch ∈ Branch.all, ∀ child ∈ block.branch branch, ¬arena.IsShadow child) ∧
  ∀ input ∈ block.inputs, (∀ child ∈ input.shadow, arena.IsShadow child) ∧
    ∀ child ∈ input.block, arena.IsShadow child →
      input.shadow = none ∨ input.shadow = some child

instance (arena : Arena) (id : String) (block : Block) : Decidable (arena.Sound id block) :=
  inferInstanceAs (Decidable (_ ∧ _ ∧ _ ∧ _ ∧ _ ∧ _))

/-- An arena is recognised as well-linked block by block. -/
theorem wellLinked_of_sound
    (sound : ∀ entry ∈ arena.blocks.entries, arena.Sound entry.1 entry.2)
    (once : (arena.ids.flatMap arena.childrenAt).Nodup) (distinctScripts : arena.scripts.Nodup)
    (listed : ∀ id ∈ arena.scripts, id ∈ arena.ids) : arena.WellLinked := by
  have each : ∀ {id block}, arena.get? id = some block → arena.Sound id block := fun found =>
    sound (_, _) ((arena.blocks.get?_eq_some_iff _ _).mp found)
  have down : ∀ owner, ∀ id ∈ arena.childrenAt owner, arena.parent? id = some owner := by
    intro owner id member
    obtain ⟨block, found, owned⟩ := exists_of_mem_childrenAt member
    exact (each found).1.1 id owned
  refine ⟨?_, once, ?_, ?_, ?_, ⟨?_, distinctScripts, ?_⟩, ?_⟩
  · intro owner id member
    obtain ⟨block, found, -⟩ := exists_of_parent? (down owner id member)
    exact mem_ids_of_get? found
  · intro id block found owner
    refine ⟨fun up => (each found).1.2.1 owner up, fun member => ?_⟩
    rw [← parent?_of_get? found]
    exact down owner id member
  · intro id member
    obtain ⟨block, found⟩ := mem_ids_iff.mp member
    exact rooted_of_climbs (each found).1.2.2
  · intro id block found
    exact (each found).2.1.1
  · intro id block found
    obtain ⟨names, values, placed⟩ := (each found).2.2.1
    exact ⟨names, values, placed⟩
  · intro id
    constructor
    · intro member
      obtain ⟨block, found⟩ := mem_ids_iff.mp (listed id member)
      exact ⟨block, found, (each found).2.1.2.mpr member⟩
    · rintro ⟨block, found, top⟩
      exact (each found).2.1.2.mp top
  · intro id block found
    obtain ⟨-, -, -, below, heads, inputs⟩ := each found
    refine ⟨below, fun branch child => heads branch ?_ child, fun input member => ?_⟩
    · cases branch <;> decide
    · exact ⟨(inputs input member).1, (inputs input member).2⟩

section

variable (arena)

theorem childrenAt_modifyBlock (found : arena.get? id = some block) (change : Block → Block)
    (other : String) : (arena.modifyBlock id change).childrenAt other =
      if other = id then (change block).childIds else arena.childrenAt other := by
  by_cases same : other = id
  · subst same
    simp [childrenAt, get?_modifyBlock, found]
  · simp [childrenAt, get?_modifyBlock, same]

theorem childrenAt_modifyBlock_same (id : String)
    (same : ∀ block, arena.get? id = some block → (change block).childIds = block.childIds) :
    (arena.modifyBlock id change).childrenAt = arena.childrenAt := by
  funext other
  rw [childrenAt, childrenAt, get?_modifyBlock]
  by_cases hit : other = id
  · subst hit
    cases found : arena.get? other with
    | none => simp
    | some block => simp [same block found]
  · simp [hit]

theorem parent?_modifyBlock (found : arena.get? id = some block) (change : Block → Block)
    (other : String) : (arena.modifyBlock id change).parent? other =
      if other = id then (change block).parent else arena.parent? other := by
  by_cases same : other = id
  · subst same
    simp [parent?, get?_modifyBlock, found]
  · simp [parent?, get?_modifyBlock, same]

theorem parent?_modifyBlock_same (id : String)
    (same : ∀ block, arena.get? id = some block → (change block).parent = block.parent) :
    (arena.modifyBlock id change).parent? = arena.parent? := by
  funext other
  rw [parent?, parent?, get?_modifyBlock]
  by_cases hit : other = id
  · subst hit
    cases found : arena.get? other with
    | none => simp
    | some block => simp [same block found]
  · simp [hit]

theorem childrenAt_setParent (id : String) (parent : Option String) :
    (arena.modifyBlock id ({ · with parent := parent })).childrenAt = arena.childrenAt :=
  arena.childrenAt_modifyBlock_same id fun _ _ => rfl

theorem parent?_setNext (id : String) (next : Option String) :
    (arena.modifyBlock id ({ · with next := next })).parent? = arena.parent? :=
  arena.parent?_modifyBlock_same id fun _ _ => rfl

theorem childrenAt_setTopLevel (id : String) (topLevel : Bool) :
    (arena.setTopLevel id topLevel).childrenAt = arena.childrenAt := by
  funext other
  rw [childrenAt, childrenAt, get?_setTopLevel]
  by_cases hit : other = id
  · cases topLevel <;> cases arena.get? other <;> simp [hit] <;> rfl
  · simp [hit]

theorem parent?_setTopLevel (id : String) (topLevel : Bool) (other : String) :
    (arena.setTopLevel id topLevel).parent? other =
      if other = id ∧ topLevel = true then none else arena.parent? other := by
  rw [parent?, parent?, get?_setTopLevel]
  by_cases hit : other = id
  · cases topLevel <;> cases arena.get? other <;> simp [hit]
  · simp [hit]

theorem parent?_setTopLevel_false (id : String) :
    (arena.setTopLevel id false).parent? = arena.parent? := by
  funext other
  simp [parent?_setTopLevel]

end

theorem isShadow_modifyBlock
    (same : ∀ block, arena.get? id = some block → (change block).opcode = block.opcode) :
    (arena.modifyBlock id change).IsShadow = arena.IsShadow := by
  funext other
  apply propext
  rw [IsShadow, IsShadow, get?_modifyBlock]
  by_cases hit : other = id
  · subst hit
    cases found : arena.get? other with
    | none => simp
    | some block => simp [same block found]
  · simp [hit]

theorem isShadow_setParent (parent : Option String) :
    (arena.modifyBlock id ({ · with parent := parent })).IsShadow = arena.IsShadow :=
  isShadow_modifyBlock fun _ _ => rfl

theorem isShadow_setTopLevel (topLevel : Bool) :
    (arena.setTopLevel id topLevel).IsShadow = arena.IsShadow := by
  cases topLevel
  · exact isShadow_modifyBlock fun _ _ => rfl
  · exact isShadow_modifyBlock fun _ _ => rfl

namespace Fitted

theorem modifyBlock (fitted : arena.Fitted)
    (same : ∀ block, arena.get? id = some block → (change block).opcode = block.opcode)
    (fits : ∀ block, arena.get? id = some block → (change block).Fits arena.IsShadow) :
    (arena.modifyBlock id change).Fitted := by
  intro other block found
  rw [isShadow_modifyBlock same]
  rw [get?_modifyBlock] at found
  split at found
  · rename_i hit
    subst hit
    obtain ⟨old, lookup, rfl⟩ := Option.map_eq_some_iff.mp found
    exact fits old lookup
  · exact fitted other block found

/-- What is in no slot does not matter. -/
theorem modifyFrame (fitted : arena.Fitted)
    (same : ∀ block, (change block).opcode = block.opcode)
    (slots : ∀ block, (change block).inputs = block.inputs ∧
      (change block).branches = block.branches ∧ (change block).next = block.next) :
    (arena.modifyBlock id change).Fitted := by
  apply fitted.modifyBlock fun block _ => same block
  intro block found
  have fits := fitted id block found
  obtain ⟨inputs, branches, next⟩ := slots block
  refine ⟨next ▸ fits.next, ?_, inputs ▸ fits.inputs⟩
  intro branch
  rw [Block.branch, branches]
  exact fits.branch branch

theorem setTopLevel (fitted : arena.Fitted) (topLevel : Bool) :
    (arena.setTopLevel id topLevel).Fitted := by
  cases topLevel
  · exact fitted.modifyFrame (fun _ => rfl) fun _ => ⟨rfl, rfl, rfl⟩
  · exact fitted.modifyFrame (fun _ => rfl) fun _ => ⟨rfl, rfl, rfl⟩

end Fitted

end BlockGraph.Arena
