import Mathlib.Data.List.Nodup
import Mathlib.Data.List.Perm.Basic
import Mathlib.Logic.Function.Basic

/-!
Forests. A parent function is rooted when every way up ends; then no block stands above itself. A
list of children for each block and a parent function are linked when they say the same and the
parents are rooted. Three changes keep them linked: exchanging one child of a block, dropping whole
trees, and planting a new tree.
-/

set_option autoImplicit false

namespace BlockGraph.Forest

/-- The way up from a block ends at one without a parent. -/
inductive Rooted (parent : String → Option String) : String → Prop
  | top {id : String} : parent id = none → Rooted parent id
  | under {id above : String} : parent id = some above → Rooted parent above → Rooted parent id

/-- The way up from a block passes through `top`, which may be the block itself. -/
inductive Above (parent : String → Option String) (top : String) : String → Prop
  | self : Above parent top top
  | step {id above : String} : parent id = some above → Above parent top above →
      Above parent top id

variable {parent changed : String → Option String} {top middle id owner : String}

namespace Above

theorem trans (upper : Above parent top middle) (lower : Above parent middle id) :
    Above parent top id := by
  induction lower with
  | self => exact upper
  | step link _ ih => exact .step link ih

theorem of_parent (link : parent id = some owner) : Above parent owner id :=
  .step link .self

/-- Ways up are only cut when parents are. -/
theorem mono (fewer : ∀ id owner, changed id = some owner → parent id = some owner)
    (above : Above changed top id) : Above parent top id := by
  induction above with
  | self => exact .self
  | step link _ ih => exact .step (fewer _ _ link) ih

/-- A way up to a block does not depend on the parent of that block. -/
theorem of_moved_top
    (kept : ∀ id higher, id ≠ top → changed id = some higher → parent id = some higher)
    (above : Above changed top id) : Above parent top id := by
  induction above with
  | self => exact .self
  | @step id higher link _ ih =>
    by_cases same : id = top
    · exact same ▸ .self
    · exact .step (kept id higher same link) ih

/-- A root stands above every block on the way up to it. -/
theorem of_root (root : parent top = none) (upper : Above parent top id)
    (lower : Above parent middle id) : Above parent top middle := by
  induction lower with
  | self => exact upper
  | step link _ ih =>
    cases upper with
    | self =>
      rw [root] at link
      cases link
    | step same higher => exact ih (Option.some.inj (same.symm.trans link) ▸ higher)

end Above

/-- No block stands above its own parent. -/
theorem Rooted.not_above_parent (rooted : Rooted parent id) (link : parent id = some owner) :
    ¬Above parent id owner := by
  induction rooted generalizing owner with
  | top isTop =>
    rw [isTop] at link
    cases link
  | @under id above up _ ih =>
    obtain rfl : above = owner := Option.some.inj (up.symm.trans link)
    intro cycle
    cases cycle with
    | self => exact ih up .self
    | step further rest => exact ih further ((Above.of_parent up).trans rest)

theorem Rooted.ne_parent (rooted : Rooted parent id) (link : parent id = some owner) :
    owner ≠ id := by
  rintro rfl
  exact rooted.not_above_parent link .self

/-- Blocks that lose their parent leave the forest rooted. -/
theorem rooted_of_cut (rooted : ∀ id, Rooted parent id)
    (cut : ∀ id, changed id = parent id ∨ changed id = none) (id : String) :
    Rooted changed id := by
  induction rooted id with
  | @top id isTop =>
    refine .top ?_
    rcases cut id with same | none
    · rw [same, isTop]
    · exact none
  | @under id above up _ ih =>
    rcases cut id with same | none
    · exact .under (same.trans up) ih
    · exact .top none

/-- A way up that does not meet the moved block is not changed by the move. -/
theorem Rooted.of_outside (rooted : Rooted parent id) {moved : String}
    (others : ∀ id, id ≠ moved → changed id = parent id) (outside : ¬Above parent moved id) :
    Rooted changed id := by
  induction rooted with
  | @top id isTop =>
    have different : id ≠ moved := fun same => outside (same ▸ .self)
    exact .top ((others id different).trans isTop)
  | @under id above up _ ih =>
    have different : id ≠ moved := fun same => outside (same ▸ .self)
    exact .under ((others id different).trans up) (ih fun higher => outside (.step up higher))

/-- A block may go below any block that it does not stand above. -/
theorem rooted_of_move (rooted : ∀ id, Rooted parent id) {moved target : String}
    (others : ∀ id, id ≠ moved → changed id = parent id) (placed : changed moved = some target)
    (outside : ¬Above parent moved target) (id : String) : Rooted changed id := by
  have movedRooted : Rooted changed moved :=
    .under placed ((rooted target).of_outside others outside)
  induction rooted id with
  | @top id isTop =>
    by_cases same : id = moved
    · exact same ▸ movedRooted
    · exact .top ((others id same).trans isTop)
  | @under id above up _ ih =>
    by_cases same : id = moved
    · exact same ▸ movedRooted
    · exact .under ((others id same).trans up) ih

/-- A way up that does not meet the moved block was there before the move. -/
theorem above_of_outside {moved : String}
    (kept : ∀ id higher, id ≠ moved → changed id = some higher → parent id = some higher)
    (outside : ¬Above parent moved id) (above : Above changed top id) : Above parent top id := by
  induction above with
  | self => exact .self
  | @step id higher link _ ih =>
    have different : id ≠ moved := fun same => outside (same ▸ .self)
    have old := kept id higher different link
    exact .step old (ih fun above => outside (.step old above))

/-- The way up from below the moved block leads through the block it was moved to. -/
theorem above_of_below_moved {moved : String}
    (kept : ∀ id higher, id ≠ moved → changed id = some higher → parent id = some higher)
    (free : parent moved = none) (placed : changed moved = some owner)
    (outside : ¬Above parent moved top) (below : Above parent moved id)
    (above : Above changed top id) : Above changed top owner := by
  induction below with
  | self =>
    cases above with
    | self => exact absurd .self outside
    | step link rest =>
      rw [placed] at link
      exact Option.some.inj link ▸ rest
  | @step id next up lower ih =>
    cases above with
    | self => exact absurd (.step up lower) outside
    | @step _ higher link rest =>
      have different : id ≠ moved := by
        rintro rfl
        rw [free] at up
        cases up
      have same := up.symm.trans (kept id higher different link)
      exact ih (Option.some.inj same ▸ rest)

/-- Lists of children and parents that describe the same forest. -/
structure Linked (children : String → List String) (parent : String → Option String) : Prop where
  distinct : ∀ owner, (children owner).Nodup
  parent_iff : ∀ owner id, parent id = some owner ↔ id ∈ children owner
  rooted : ∀ id, Rooted parent id

/-- One list has `new` where the other one has `old`, up to order. -/
def Swaps (before after : List String) (old new : Option String) : Prop :=
  ∃ kept, before.Perm (old.toList ++ kept) ∧ after.Perm (new.toList ++ kept)

namespace Swaps

variable {before after : List String} {old new : Option String}

theorem mem_iff (swaps : Swaps before after old new) (distinct : before.Nodup) (id : String) :
    id ∈ after ↔ id ∈ before ∧ old ≠ some id ∨ new = some id := by
  obtain ⟨kept, beforePerm, afterPerm⟩ := swaps
  have apart : ∀ id, old = some id → id ∉ kept := by
    rintro id rfl member
    have clash := beforePerm.nodup_iff.mp distinct
    simp only [Option.toList_some, List.singleton_append, List.nodup_cons] at clash
    exact clash.1 member
  rw [beforePerm.mem_iff, afterPerm.mem_iff]
  simp only [List.mem_append, Option.mem_toList]
  constructor
  · rintro (isNew | isKept)
    · exact .inr isNew
    · exact .inl ⟨.inr isKept, fun isOld => apart id isOld isKept⟩
  · rintro (⟨isOld | isKept, notOld⟩ | isNew)
    · exact absurd isOld notOld
    · exact .inr isKept
    · exact .inl isNew

theorem count (swaps : Swaps before after old new) (id : String) :
    after.count id + old.toList.count id = before.count id + new.toList.count id := by
  obtain ⟨kept, beforePerm, afterPerm⟩ := swaps
  rw [beforePerm.count_eq, afterPerm.count_eq, List.count_append, List.count_append]
  omega

theorem nodup (swaps : Swaps before after old new) (distinct : before.Nodup)
    (isNew : ∀ id, new = some id → id ∉ before) : after.Nodup := by
  obtain ⟨kept, beforePerm, afterPerm⟩ := swaps
  have keptDistinct : kept.Nodup := (List.nodup_append.mp (beforePerm.nodup_iff.mp distinct)).2.1
  refine afterPerm.nodup_iff.mpr ?_
  cases new with
  | none => simpa using keptDistinct
  | some id =>
    refine List.nodup_cons.mpr ⟨fun member => isNew id rfl ?_, keptDistinct⟩
    exact beforePerm.mem_iff.mpr (List.mem_append_right _ member)

end Swaps

namespace Linked

variable {children after : String → List String}

theorem parent_of_mem (linked : Linked children parent) (member : id ∈ children owner) :
    parent id = some owner :=
  (linked.parent_iff owner id).mpr member

/-- A block with nothing below it stands above itself only. -/
theorem eq_of_above (linked : Linked children parent) (leaf : children top = [])
    (above : Above parent top id) : top = id := by
  induction above with
  | self => rfl
  | @step id next up _ ih =>
    subst ih
    have member := (linked.parent_iff top id).mp up
    rw [leaf] at member
    cases member

/-- One block exchanges a child for a block that has no parent and does not stand above it. -/
theorem swap (linked : Linked children parent) {old new : Option String}
    (swaps : Swaps (children owner) (after owner) old new)
    (others : ∀ id, id ≠ owner → after id = children id)
    (parents : ∀ id, changed id =
      if new = some id then some owner else if old = some id then none else parent id)
    (free : ∀ id, new = some id → parent id = none)
    (outside : ∀ id, new = some id → ¬Above parent id owner) : Linked after changed where
  distinct id := by
    by_cases same : id = owner
    · subst same
      refine swaps.nodup (linked.distinct id) fun child isNew member => ?_
      rw [← linked.parent_iff, free child isNew] at member
      cases member
    · rw [others id same]
      exact linked.distinct id
  parent_iff other id := by
    by_cases same : other = owner
    · subst same
      rw [swaps.mem_iff (linked.distinct other), ← linked.parent_iff, parents]
      by_cases isNew : new = some id
      · simp [isNew]
      · by_cases isOld : old = some id <;> simp [isNew, isOld]
    · rw [others other same, ← linked.parent_iff, parents]
      by_cases isNew : new = some id
      · simp [isNew, free id isNew, Ne.symm same]
      · by_cases isOld : old = some id
        · -- A child of the owner has no other parent.
          obtain ⟨kept, beforePerm, -⟩ := swaps
          have member : id ∈ children owner := by simp [beforePerm.mem_iff, isOld]
          simp [isNew, isOld, linked.parent_of_mem member, Ne.symm same]
        · simp [isNew, isOld]
  rooted := by
    have cutRooted : ∀ id, Rooted (fun id => if old = some id then none else parent id) id :=
      rooted_of_cut linked.rooted fun id => by by_cases isOld : old = some id <;> simp [isOld]
    cases new with
    | none =>
      have same : changed = fun id => if old = some id then none else parent id := by
        funext id
        simp [parents id]
      rw [same]
      exact cutRooted
    | some moved =>
      have placed : changed moved = some owner := by simp [parents moved]
      refine rooted_of_move cutRooted ?_ placed ?_
      · intro id different
        simp [parents id, Ne.symm different]
      · intro above
        refine outside moved rfl (above.mono fun id above link => ?_)
        by_cases isOld : old = some id
        · simp [isOld] at link
        · simpa [isOld] using link

/-- A block goes to the place of a child of another one, and the child goes below a block of its
tree. -/
theorem splice (linked : Linked children parent) {moved displaced tail : String}
    (free : parent moved = none) (outside : ¬Above parent moved owner)
    (child : displaced ∈ children owner) (below : Above parent moved tail)
    (ownerSwaps : Swaps (children owner) (after owner) (some displaced) (some moved))
    (tailSwaps : Swaps (children tail) (after tail) none (some displaced))
    (others : ∀ id, id ≠ owner → id ≠ tail → after id = children id)
    (parents : ∀ id, changed id =
      if id = displaced then some tail else if id = moved then some owner else parent id) :
    Linked after changed := by
  have up : parent displaced = some owner := linked.parent_of_mem child
  have different : displaced ≠ moved := by
    rintro rfl
    rw [free] at up
    cases up
  have apart : tail ≠ owner := by
    rintro rfl
    exact outside below
  -- First the moved block takes the place of the displaced one, which is left without a parent.
  let middleChildren : String → List String := Function.update children owner (after owner)
  let middle : String → Option String := fun id =>
    if id = moved then some owner else if id = displaced then none else parent id
  have middleLinked : Linked middleChildren middle := by
    have swaps : Swaps (children owner) (middleChildren owner) (some displaced) (some moved) := by
      simpa [middleChildren] using ownerSwaps
    apply linked.swap swaps
    · intro id other
      simp [middleChildren, other]
    · intro id
      simp [middle, eq_comm]
    · rintro id ⟨⟩
      exact free
    · rintro id ⟨⟩
      exact outside
  have displacedTop : middle displaced = none := by simp [middle, different]
  have kept : ∀ id higher, id ≠ moved → middle id = some higher → parent id = some higher := by
    intro id higher notMoved link
    by_cases isDisplaced : id = displaced
    · rw [isDisplaced, displacedTop] at link
      cases link
    · simpa [middle, notMoved, isDisplaced] using link
  -- Then the displaced block, now a root, goes below the tail.
  have notAboveTail : ¬Above middle displaced tail := by
    intro above
    have notBelow : ¬Above parent moved displaced := by
      intro lower
      cases lower with
      | self => exact different rfl
      | step link rest =>
        rw [up] at link
        exact outside (Option.some.inj link ▸ rest)
    have placed : middle moved = some owner := by simp [middle]
    have aboveOwner := above_of_below_moved kept free placed notBelow below above
    have old := above_of_outside kept outside aboveOwner
    exact (linked.rooted displaced).not_above_parent up old
  have swaps : Swaps (middleChildren tail) (after tail) none (some displaced) := by
    simpa [middleChildren, apart] using tailSwaps
  apply middleLinked.swap swaps
  · intro id notTail
    by_cases isOwner : id = owner
    · simp [middleChildren, isOwner]
    · simp [middleChildren, isOwner, others id isOwner notTail]
  · intro id
    rw [parents]
    by_cases isDisplaced : id = displaced
    · simp [isDisplaced]
    · simp [middle, isDisplaced, Ne.symm isDisplaced]
  · rintro id ⟨⟩
    exact displacedTop
  · rintro id ⟨⟩
    exact notAboveTail

/-- A block gives up its place to one of its own children, and is left without a parent. -/
theorem promote (linked : Linked children parent) {lower : String} (child : id ∈ children owner)
    (grandchild : lower ∈ children id)
    (ownerSwaps : Swaps (children owner) (after owner) (some id) (some lower))
    (swaps : Swaps (children id) (after id) (some lower) none)
    (others : ∀ other, other ≠ owner → other ≠ id → after other = children other)
    (parents : ∀ other, changed other =
      if other = lower then some owner else if other = id then none else parent other) :
    Linked after changed := by
  have up : parent id = some owner := linked.parent_of_mem child
  have lowerUp : parent lower = some id := linked.parent_of_mem grandchild
  have apart : owner ≠ id := (linked.rooted id).ne_parent up
  -- First the block lets go of its child, then the child takes its place.
  let middleChildren : String → List String := Function.update children id (after id)
  let middle : String → Option String := fun other => if other = lower then none else parent other
  have middleLinked : Linked middleChildren middle := by
    have cuts : Swaps (children id) (middleChildren id) (some lower) none := by
      simpa [middleChildren] using swaps
    apply linked.swap cuts
    · intro other different
      simp [middleChildren, different]
    · intro other
      simp [middle, eq_comm]
    · intro other none
      cases none
    · intro other none
      cases none
  have notAbove : ¬Above middle lower owner := by
    intro above
    have old : Above parent lower owner := by
      refine above.mono fun other higher link => ?_
      by_cases isLower : other = lower
      · simp [middle, isLower] at link
      · simpa [middle, isLower] using link
    exact (linked.rooted lower).not_above_parent lowerUp (.step up old)
  have takes : Swaps (middleChildren owner) (after owner) (some id) (some lower) := by
    simpa [middleChildren, apart] using ownerSwaps
  apply middleLinked.swap takes
  · intro other different
    by_cases isId : other = id
    · simp [middleChildren, isId]
    · simp [middleChildren, isId, others other different isId]
  · intro other
    rw [parents]
    by_cases isLower : other = lower
    · simp [isLower]
    · simp [middle, isLower, Ne.symm isLower, eq_comm]
  · rintro other ⟨⟩
    simp [middle]
  · rintro other ⟨⟩
    exact notAbove

/-- Whole trees go: with each block what is below it, and with each block its parent. -/
theorem drop (linked : Linked children parent) {gone : List String}
    (downward : ∀ owner ∈ gone, ∀ id ∈ children owner, id ∈ gone)
    (upward : ∀ id ∈ gone, ∀ owner, parent id = some owner → owner ∈ gone)
    (after_eq : ∀ id, after id = if id ∈ gone then [] else children id)
    (changed_eq : ∀ id, changed id = if id ∈ gone then none else parent id) :
    Linked after changed where
  distinct id := by
    rw [after_eq]
    split
    · exact List.nodup_nil
    · exact linked.distinct id
  parent_iff owner id := by
    rw [after_eq, changed_eq]
    by_cases idGone : id ∈ gone
    · by_cases ownerGone : owner ∈ gone
      · simp [idGone, ownerGone]
      · simp only [idGone, ownerGone, if_true, if_false]
        refine ⟨by simp, fun member => ?_⟩
        exact absurd (upward id idGone owner (linked.parent_of_mem member)) ownerGone
    · by_cases ownerGone : owner ∈ gone
      · simp only [idGone, ownerGone, if_true, if_false]
        refine ⟨fun link => ?_, by simp⟩
        exact absurd (downward owner ownerGone id ((linked.parent_iff owner id).mp link)) idGone
      · simpa [idGone, ownerGone] using linked.parent_iff owner id
  rooted := by
    refine rooted_of_cut linked.rooted fun id => ?_
    rw [changed_eq]
    split
    · exact .inr rfl
    · exact .inl rfl

/-- A new tree: a root with leaves, none of which the forest knows. -/
theorem plant (linked : Linked children parent) {root : String} {leaves : List String}
    (distinct : leaves.Nodup) (rootApart : root ∉ leaves)
    (isolated : ∀ id, id = root ∨ id ∈ leaves → children id = [] ∧ parent id = none)
    (after_eq : ∀ id, after id = if id = root then leaves else children id)
    (changed_eq : ∀ id, changed id = if id ∈ leaves then some root else parent id) :
    Linked after changed where
  distinct id := by
    rw [after_eq]
    split
    · exact distinct
    · exact linked.distinct id
  parent_iff owner id := by
    rw [after_eq, changed_eq]
    by_cases isLeaf : id ∈ leaves
    · by_cases isRoot : owner = root
      · simp [isLeaf, isRoot]
      · simp only [isLeaf, isRoot, if_true, if_false, Option.some.injEq]
        refine ⟨fun same => absurd same.symm isRoot, fun member => ?_⟩
        have link := linked.parent_of_mem member
        rw [(isolated id (.inr isLeaf)).2] at link
        cases link
    · by_cases isRoot : owner = root
      · subst isRoot
        simp only [isLeaf, if_true, if_false, linked.parent_iff,
          (isolated owner (.inl rfl)).1, List.not_mem_nil]
      · simpa [isLeaf, isRoot] using linked.parent_iff owner id
  rooted id := by
    have rootTop : changed root = none := by
      rw [changed_eq, if_neg rootApart]
      exact (isolated root (.inl rfl)).2
    by_cases isLeaf : id ∈ leaves
    · exact .under (by rw [changed_eq, if_pos isLeaf]) (.top rootTop)
    · induction linked.rooted id with
      | @top id isTop => exact .top (by rw [changed_eq, if_neg isLeaf, isTop])
      | @under id above up _ ih =>
        have same : changed id = some above := by rw [changed_eq, if_neg isLeaf, up]
        refine .under same (ih fun leaf => ?_)
        -- A leaf has no children in the old forest.
        have member := (linked.parent_iff above id).mp up
        rw [(isolated above (.inr leaf)).1] at member
        cases member

end Linked

end BlockGraph.Forest
