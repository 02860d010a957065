import BlockGraph.Proofs.WellLinked.Growth

/-!
New blocks keep an arena well-linked, and can be taken back. A new block is a tree of its own with
shadows as its leaves; discarding it leaves what was there before, except for the numbers that were
spent on ids.
-/

set_option autoImplicit false

namespace BlockGraph

open Forest Revision

namespace NewBlock

open Arena

variable {arena middle next : Arena} {spec : Catalog.BlockSpec} {id : String} {block : Block}
  {shadows : List (String × Block)}

namespace Placed

theorem get?_id (placed : Placed arena spec id block shadows middle next) :
    next.get? id = some block := by
  rw [placed.result, get?_insertAll_of_not_mem placed.apart, get?_insert, if_pos rfl]

theorem get?_shadow (placed : Placed arena spec id block shadows middle next)
    {entry : String × Block} (member : entry ∈ shadows) : next.get? entry.1 = some entry.2 := by
  rw [placed.result]
  exact get?_insertAll_of_mem placed.templated.distinct member

theorem get?_other (placed : Placed arena spec id block shadows middle next) {other : String}
    (notId : other ≠ id) (notShadow : other ∉ shadows.map Prod.fst) :
    next.get? other = arena.get? other := by
  rw [placed.result, get?_insertAll_of_not_mem notShadow, get?_insert, if_neg (Ne.symm notId),
    placed.templated.lookups]

theorem fresh_of_shadow (placed : Placed arena spec id block shadows middle next) {other : String}
    (isShadow : other ∈ shadows.map Prod.fst) : arena.get? other = none := by
  obtain ⟨entry, member, rfl⟩ := List.mem_map.mp isShadow
  exact (placed.templated.fresh entry member).1

/-- What was stored before is still stored. -/
theorem get?_old (placed : Placed arena spec id block shadows middle next) {other : String}
    {old : Block} (found : arena.get? other = some old) : next.get? other = some old := by
  rw [placed.get?_other, found]
  · exact (ne_of_fresh placed.fresh found).symm
  · intro isShadow
    exact ne_of_fresh (placed.fresh_of_shadow isShadow) found rfl

theorem childIds (placed : Placed arena spec id block shadows middle next) :
    block.childIds = shadows.map Prod.fst := by
  rw [Block.childIds_eq, placed.templated.children, placed.below, Block.branch, Block.branch,
    placed.branches]
  simp [Branches.get]

theorem parents (placed : Placed arena spec id block shadows middle next) (other : String) :
    next.parent? other = if other ∈ shadows.map Prod.fst then some id else arena.parent? other := by
  by_cases isShadow : other ∈ shadows.map Prod.fst
  · obtain ⟨entry, member, rfl⟩ := List.mem_map.mp isShadow
    obtain ⟨opcode, field, value, same, -⟩ := placed.templated.blocks entry member
    rw [if_pos isShadow, parent?_of_get? (placed.get?_shadow member), same]
    rfl
  · rw [if_neg isShadow]
    by_cases isId : other = id
    · subst isId
      rw [parent?_of_get? placed.get?_id, placed.parent, parent?, placed.fresh]
      rfl
    · rw [parent?, placed.get?_other isId isShadow, parent?]

theorem children (placed : Placed arena spec id block shadows middle next) (other : String) :
    next.childrenAt other = if other = id then shadows.map Prod.fst else arena.childrenAt other := by
  by_cases isId : other = id
  · subst isId
    rw [if_pos rfl, childrenAt_of_get? placed.get?_id, placed.childIds]
  · rw [if_neg isId]
    by_cases isShadow : other ∈ shadows.map Prod.fst
    · obtain ⟨entry, member, rfl⟩ := List.mem_map.mp isShadow
      obtain ⟨opcode, field, value, same, -⟩ := placed.templated.blocks entry member
      rw [childrenAt_of_get? (placed.get?_shadow member), same, Block.childIds_newShadow, childrenAt,
        placed.fresh_of_shadow isShadow]
      rfl
    · rw [childrenAt, placed.get?_other isId isShadow, childrenAt]

theorem scripts (placed : Placed arena spec id block shadows middle next) (tidy : arena.Tidy) :
    next.scripts = arena.scripts ++ [id] := by
  have unlisted := tidy.not_mem_scripts placed.fresh
  have below : ∀ entry ∈ shadows, entry.2.topLevel = false := by
    intro entry member
    obtain ⟨opcode, field, value, same, -⟩ := placed.templated.blocks entry member
    rw [same]
    rfl
  rw [placed.result, scripts_insertAll below]
  simp [Arena.insert, placed.topLevel, withScript, placed.templated.scripts, unlisted]

theorem isShadow (placed : Placed arena spec id block shadows middle next)
    (listed : spec ∈ Catalog.specs) {other : String} (member : other ∈ shadows.map Prod.fst) :
    next.IsShadow other := by
  obtain ⟨entry, inside, rfl⟩ := List.mem_map.mp member
  obtain ⟨opcode, field, value, same, input, declared, kind⟩ := placed.templated.blocks entry inside
  refine ⟨entry.2, placed.get?_shadow inside, ?_⟩
  rw [same]
  exact Catalog.kind_of_mem_shadows (Catalog.specs_shadows spec listed input declared opcode kind)

theorem fitted (placed : Placed arena spec id block shadows middle next)
    (linked : arena.WellLinked) (listed : spec ∈ Catalog.specs) : next.Fitted := by
  intro other stored found
  by_cases isShadow : other ∈ shadows.map Prod.fst
  · obtain ⟨entry, member, rfl⟩ := List.mem_map.mp isShadow
    obtain ⟨opcode, field, value, same, -⟩ := placed.templated.blocks entry member
    rw [placed.get?_shadow member, same] at found
    obtain rfl := Option.some.inj found
    exact Block.fits_newShadow id opcode field value
  · by_cases isId : other = id
    · subst isId
      rw [placed.get?_id] at found
      obtain rfl := Option.some.inj found
      refine ⟨?_, ?_, ?_⟩
      · simp [placed.below]
      · intro branch head
        rw [Block.branch, placed.branches]
        cases branch <;> simp [Branches.get]
      · intro input member
        have same := placed.templated.plugged input member
        refine ⟨?_, fun head plugged _ => .inr (same.trans plugged)⟩
        intro head shadow
        apply placed.isShadow listed
        rw [← placed.childIds]
        exact Block.mem_childIds_of_shadow member shadow
    · rw [placed.get?_other isId isShadow] at found
      apply (linked.fitted other stored found).congr
      intro child member
      rw [← childrenAt_of_get? found] at member
      obtain ⟨old, childFound⟩ := linked.found_of_mem member
      rw [IsShadow.kind childFound, IsShadow.kind (placed.get?_old childFound)]

theorem knit (placed : Placed arena spec id block shadows middle next) (linked : arena.WellLinked)
    (listed : spec ∈ Catalog.specs) : next.Knit := by
  refine { forest := ?forest, tops := ?tops, fitted := placed.fitted linked listed }
  case forest =>
    refine linked.forest.plant placed.templated.distinct placed.apart ?_ placed.children placed.parents
    intro other isNew
    have fresh : arena.get? other = none := by
      rcases isNew with rfl | isShadow
      · exact placed.fresh
      · exact placed.fresh_of_shadow isShadow
    exact ⟨(linked.isolated fresh).1, (linked.isolated fresh).2.1⟩
  case tops =>
    rintro other ⟨stored, found⟩
    rw [placed.scripts linked.tidy, placed.parents, List.mem_append, List.mem_singleton]
    by_cases isShadow : other ∈ shadows.map Prod.fst
    · have unlisted := (linked.isolated (placed.fresh_of_shadow isShadow)).2.2
      have notId : other ≠ id := by
        rintro rfl
        exact placed.apart isShadow
      simp [isShadow, unlisted, notId]
    · rw [if_neg isShadow]
      by_cases isId : other = id
      · simp [isId, (linked.isolated placed.fresh).2.1]
      · rw [placed.get?_other isId isShadow] at found
        simp [isId, linked.tops found]

/-- A walk from a new block meets the block and its shadows, which own nothing. -/
theorem subtreeIds_of_uncounted (placed : Placed arena spec id block shadows middle next)
    {last : Arena} (same : last.uncounted = next.uncounted) :
    last.subtreeIds id = .ok (id :: shadows.map Prod.fst) := by
  have lookups := get?_of_uncounted same
  apply collect_of_explores
  refine .shown ((lookups id).trans placed.get?_id) (congrArg some placed.childIds) (by simp) ?_
  rw [List.append_nil]
  refine explores_leaves ?_ placed.templated.distinct ?_
  · intro other isShadow
    obtain ⟨entry, member, rfl⟩ := List.mem_map.mp isShadow
    obtain ⟨opcode, field, value, same, -⟩ := placed.templated.blocks entry member
    refine ⟨entry.2, (lookups entry.1).trans (placed.get?_shadow member), ?_⟩
    rw [same, Block.childIds_newShadow]
  · intro other isShadow
    simpa using ne_of_mem_of_not_mem isShadow placed.apart

/-- Taking a new block back leaves what was there before, whatever the links were like. -/
theorem after_discard (placed : Placed arena spec id block shadows middle next)
    (tidy : arena.Tidy) {last : Arena} (same : last.uncounted = next.uncounted) :
    After (discard id) last (fun _ final => final.uncounted = arena.uncounted) fun _ _ => False := by
  have fresh : ∀ other ∈ id :: shadows.map Prod.fst, arena.get? other = none := by
    intro other member
    rcases List.mem_cons.mp member with rfl | isShadow
    · exact placed.fresh
    · exact placed.fresh_of_shadow isShadow
  rw [Arena.after_discard, placed.subtreeIds_of_uncounted same]
  refine ⟨?_, by simp⟩
  rintro _ ⟨⟩
  apply uncounted_eq
  · intro other
    rw [get?_removeAll]
    split
    · rename_i inside
      rw [fresh other inside]
    · rename_i outside
      rw [List.mem_cons, not_or] at outside
      rw [get?_of_uncounted same, placed.get?_other outside.1 outside.2]
  · have kept : ∀ script ∈ arena.scripts, script ∉ id :: shadows.map Prod.fst :=
      fun script listed inside => tidy.not_mem_scripts (fresh script inside) listed
    have scripts : last.scripts = arena.scripts ++ [id] :=
      (scripts_of_uncounted same).trans (placed.scripts tidy)
    rw [scripts_removeAll, scripts, List.filter_append]
    simpa using kept

end Placed

end NewBlock

end BlockGraph
