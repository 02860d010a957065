import BlockGraph.Proofs.Arena
import BlockGraph.Proofs.Forest
import BlockGraph.Proofs.Search

/-!
Walks along the links of a forest. A walk through all that a block owns is a search that hides
nothing. Where children and parents form a forest it ends, and meets exactly the blocks below its
root; a walk down a sequence ends too, at a block with nothing below it.
-/

set_option autoImplicit false

namespace BlockGraph

open Forest Search

namespace Arena

variable {arena : Arena} {parent : String → Option String}

/-- A walk through all that blocks own hides none of them. -/
def owned (block : Block) : Option (List String) :=
  some block.childIds

theorem linksAt_owned (arena : Arena) : linksAt arena owned = arena.childrenAt := by
  funext id
  cases found : arena.get? id <;> simp [linksAt, owned, childrenAt, found]

theorem shown_owned {id : String} : Shown arena owned id ↔ ∃ block, arena.get? id = some block := by
  constructor
  · rintro ⟨block, below, found, -⟩
    exact ⟨block, found⟩
  · rintro ⟨block, found⟩
    exact ⟨block, block.childIds, found, rfl⟩

/-- A walk ends with the blocks of a search, or is blocked like one. -/
theorem collect_cases (arena : Arena) (agenda seen : List String) :
    (∃ order, arena.collect agenda seen = .ok order ∧ Explores arena owned agenda seen order) ∨
      (∃ damage, arena.collect agenda seen = .error damage) ∧ Blocked arena owned agenda seen := by
  fun_induction collect arena agenda seen with
  | case1 seen => exact .inl ⟨[], rfl, .done⟩
  | case2 seen id rest old =>
    refine .inr ⟨⟨_, rfl⟩, ?_⟩
    cases found : arena.get? id with
    | none => exact .missing found
    | some block => exact .repeated (shown_owned.mpr ⟨block, found⟩) old
  | case3 seen id rest isNew missing => exact .inr ⟨⟨_, rfl⟩, .missing missing⟩
  | case4 seen id rest isNew block found ih =>
    rcases ih with ⟨order, walked, explores⟩ | ⟨⟨damage, failed⟩, blocked⟩
    · refine .inl ⟨id :: order, ?_, .shown found rfl isNew explores⟩
      rw [walked]
      rfl
    · refine .inr ⟨⟨damage, ?_⟩, .shown found rfl isNew blocked⟩
      rw [failed]
      rfl

section

variable (linked : Linked arena.childrenAt parent)
  (stored : ∀ owner, ∀ id ∈ arena.childrenAt owner, ∃ block, arena.get? id = some block)

include linked stored

/-- Walks from several roots reach what stands below one of them. -/
theorem reached_iff {roots : List String} {id : String}
    (found : ∀ root ∈ roots, ∃ block, arena.get? root = some block) :
    Reached arena owned roots id ↔ ∃ root ∈ roots, Above parent root id := by
  constructor
  · intro reached
    induction reached with
    | @root id member _ => exact ⟨id, member, .self⟩
    | @link owner id _ member _ ih =>
      obtain ⟨root, listed, above⟩ := ih
      rw [linksAt_owned] at member
      exact ⟨root, listed, .step (linked.parent_of_mem member) above⟩
  · rintro ⟨root, listed, above⟩
    induction above with
    | self => exact .root listed (shown_owned.mpr (found root listed))
    | @step id owner up _ ih =>
      have member := (linked.parent_iff owner id).mp up
      refine .link ih ?_ (shown_owned.mpr (stored owner id member))
      rw [linksAt_owned]
      exact member

theorem above_iff_reached {root id : String} (found : ∃ block, arena.get? root = some block) :
    Above parent root id ↔ Reached arena owned [root] id := by
  rw [reached_iff linked stored (by simpa using found)]
  simp

theorem not_namedTwice_of_linked {root id : String}
    (found : ∃ block, arena.get? root = some block) : ¬NamedTwice arena owned [root] id := by
  rintro ⟨owners, distinct, reached, twice⟩
  rw [linksAt_owned] at twice
  have once : ([root] ++ owners.flatMap arena.childrenAt).Nodup := by
    apply List.nodup_append.mpr
    refine ⟨List.nodup_singleton root, ?_, ?_⟩
    · apply List.nodup_flatMap.mpr
      refine ⟨fun owner _ => linked.distinct owner, ?_⟩
      refine distinct.imp ?_
      intro first second different other left right
      have same := (linked.parent_of_mem left).symm.trans (linked.parent_of_mem right)
      exact different (Option.some.inj same)
    · intro other isRoot child member same
      obtain ⟨owner, listed, inside⟩ := List.mem_flatMap.mp member
      rw [← same, List.mem_singleton.mp isRoot] at inside
      have above := (above_iff_reached linked stored found).mpr (reached owner listed)
      exact (linked.rooted root).not_above_parent (linked.parent_of_mem inside) above
  have atMost := List.nodup_iff_count_le_one.mp once id
  omega

/-- The ids below a stored root can be listed. -/
theorem subtreeIds_of_linked {root : String} (found : ∃ block, arena.get? root = some block) :
    ∃ order, arena.subtreeIds root = .ok order ∧ ∀ id, id ∈ order ↔ Above parent root id := by
  rcases collect_cases arena [root] [] with ⟨order, walked, explores⟩ | ⟨-, blocked⟩
  · refine ⟨order, walked, fun id => ?_⟩
    rw [above_iff_reached linked stored found]
    exact explores.mem_iff_reached
  · rcases blocked.dangling_or_namedTwice with ⟨id, missing, named⟩ | ⟨id, -, twice⟩
    · have present : ∃ block, arena.get? id = some block := by
        rcases named with isRoot | ⟨owner, -, member⟩
        · exact List.mem_singleton.mp isRoot ▸ found
        · rw [linksAt_owned] at member
          exact stored owner id member
      obtain ⟨block, lookup⟩ := present
      rw [missing] at lookup
      cases lookup
    · exact absurd twice (not_namedTwice_of_linked linked stored found)

end

/-- Where every child has its owner as its parent, and no way up is endless, the way down from a stored
block ends. -/
theorem tailFrom_of_rooted (rooted : ∀ id, Rooted arena.parent? id)
    (down : ∀ owner, ∀ id ∈ arena.childrenAt owner, arena.parent? id = some owner) (id : String)
    (seen : List String) (found : ∃ block, arena.get? id = some block)
    (passed : ∀ other ∈ seen, ∃ owner, arena.parent? id = some owner ∧
      Above arena.parent? other owner) :
    ∃ tail block, arena.tailFrom id seen = .ok tail ∧ arena.get? tail = some block ∧
      block.next = none ∧ Above arena.parent? id tail := by
  fun_induction tailFrom arena id seen with
  | case1 id seen old =>
    obtain ⟨owner, up, above⟩ := passed id old
    exact absurd above ((rooted id).not_above_parent up)
  | case2 id seen isNew missing =>
    obtain ⟨block, lookup⟩ := found
    rw [missing] at lookup
    cases lookup
  | case3 id seen isNew block lookup last => exact ⟨id, block, rfl, lookup, last, .self⟩
  | case4 id seen isNew block lookup next below ih =>
    have up : arena.parent? next = some id := by
      apply down
      rw [childrenAt_of_get? lookup, Block.childIds, below]
      simp
    have nextFound : ∃ block, arena.get? next = some block := by
      obtain ⟨other, lookup, -⟩ := exists_of_parent? up
      exact ⟨other, lookup⟩
    have nextPassed : ∀ other ∈ id :: seen, ∃ owner, arena.parent? next = some owner ∧
        Above arena.parent? other owner := by
      intro other member
      refine ⟨id, up, ?_⟩
      rcases List.mem_cons.mp member with rfl | older
      · exact .self
      · obtain ⟨owner, higher, above⟩ := passed other older
        exact .step higher above
    obtain ⟨tail, block, walked, lookup, last, above⟩ := ih nextFound nextPassed
    exact ⟨tail, block, walked, lookup, last, (Above.of_parent up).trans above⟩

theorem tailOf_of_rooted (rooted : ∀ id, Rooted arena.parent? id)
    (down : ∀ owner, ∀ id ∈ arena.childrenAt owner, arena.parent? id = some owner) {id : String}
    (found : ∃ block, arena.get? id = some block) :
    ∃ tail block, arena.tailOf id = .ok tail ∧ arena.get? tail = some block ∧
      block.next = none ∧ Above arena.parent? id tail :=
  tailFrom_of_rooted rooted down id [] found (by simp)

/-- The way down ends at a block with nothing below it. -/
theorem last_of_tailFrom {head tail : String} {seen : List String}
    (walked : arena.tailFrom head seen = .ok tail) :
    ∃ block, arena.get? tail = some block ∧ block.next = none := by
  fun_induction arena.tailFrom head seen with
  | case1 => cases walked
  | case2 => cases walked
  | case3 head seen isNew block found last =>
    cases walked
    exact ⟨block, found, last⟩
  | case4 head seen isNew block found next below ih => exact ih walked

section

variable {after : Arena}

theorem collect_of_explores {agenda seen order : List String}
    (explores : Explores arena owned agenda seen order) : arena.collect agenda seen = .ok order := by
  induction explores with
  | done => rw [collect]
  | hidden _ hidden _ _ => cases hidden
  | @shown id block below rest seen order found visible isNew _ ih =>
    cases visible
    rw [collect, dif_neg isNew]
    split
    · rename_i missing
      cases found.symm.trans missing
    · rename_i same lookup
      cases Option.some.inj (found.symm.trans lookup)
      rw [ih]
      rfl

/-- A walk through blocks that own nothing meets just these. -/
theorem explores_leaves {agenda seen : List String}
    (leaves : ∀ id ∈ agenda, ∃ block, arena.get? id = some block ∧ block.childIds = [])
    (distinct : agenda.Nodup) (isNew : ∀ id ∈ agenda, id ∉ seen) :
    Explores arena owned agenda seen agenda := by
  induction agenda generalizing seen with
  | nil => exact .done
  | cons id rest ih =>
    obtain ⟨apart, distinct⟩ := List.nodup_cons.mp distinct
    obtain ⟨block, found, bare⟩ := leaves id List.mem_cons_self
    refine .shown found (congrArg some bare) (isNew id List.mem_cons_self) ?_
    refine ih (fun other later => leaves other (List.mem_cons_of_mem id later)) distinct ?_
    intro other later
    rw [List.mem_cons, not_or]
    exact ⟨ne_of_mem_of_not_mem later apart, isNew other (List.mem_cons_of_mem id later)⟩

/-- A walk depends on the blocks that it meets alone. -/
theorem explores_congr {agenda seen order : List String}
    (explores : Explores arena owned agenda seen order)
    (same : ∀ id ∈ order,
      ∃ block, after.get? id = some block ∧ block.childIds = arena.childrenAt id) :
    Explores after owned agenda seen order := by
  induction explores with
  | done => exact .done
  | hidden _ hidden _ _ => cases hidden
  | @shown id block below rest seen order found visible isNew _ ih =>
    cases visible
    obtain ⟨changed, lookup, children⟩ := same id List.mem_cons_self
    rw [childrenAt_of_get? found] at children
    have later := ih fun id member => same id (List.mem_cons_of_mem _ member)
    rw [← children] at later
    exact .shown lookup rfl isNew later

theorem explores_of_subtreeIds {root : String} {order : List String}
    (walked : arena.subtreeIds root = .ok order) : Explores arena owned [root] [] order := by
  rcases collect_cases arena [root] [] with ⟨same, collected, explores⟩ | ⟨⟨damage, failed⟩, -⟩
  · cases Except.ok.inj (walked.symm.trans collected)
    exact explores
  · cases walked.symm.trans failed

theorem exists_of_walked {root id : String} {order : List String}
    (walked : arena.subtreeIds root = .ok order) (met : id ∈ order) :
    ∃ block, arena.get? id = some block :=
  shown_owned.mp ((explores_of_subtreeIds walked).mem_iff_reached.mp met).shown

theorem root_mem_of_walked {root : String} {order : List String}
    (walked : arena.subtreeIds root = .ok order) : root ∈ order := by
  have explores := explores_of_subtreeIds walked
  have listed : root ∈ [root] := List.mem_singleton.mpr rfl
  have stored := explores.stored root (List.mem_append_left _ listed)
  exact explores.mem_iff_reached.mpr (.root listed (shown_owned.mpr stored))

/-- No block that a walk meets owns the root. -/
theorem not_mem_childrenAt_of_walked {root id : String} {order : List String}
    (walked : arena.subtreeIds root = .ok order) (met : id ∈ order) : root ∉ arena.childrenAt id := by
  have explores := explores_of_subtreeIds walked
  intro owned
  have named : 1 < ([root] ++ [id].flatMap (linksAt arena Arena.owned)).count root := by
    have positive := List.count_pos_iff.mpr owned
    rw [List.count_append, List.flatMap_singleton, linksAt_owned, List.count_singleton_self]
    omega
  have stored := explores.stored root (List.mem_append_left _ (List.mem_singleton.mpr rfl))
  apply explores.not_namedTwice (shown_owned.mpr stored)
  refine ⟨[id], List.nodup_singleton id, ?_, named⟩
  intro owner member
  rw [List.mem_singleton.mp member]
  exact explores.mem_iff_reached.mp met

/-- Where the walk through a block ends, so does the way down from it; later changes elsewhere do not
matter. -/
theorem tailFrom_of_preorder (id : String) (seen order : List String)
    (preorder : Preorder arena owned [id] order) (distinct : order.Nodup)
    (isNew : ∀ id ∈ order, id ∉ seen)
    (same : ∀ id ∈ order, ∀ block, arena.get? id = some block →
      ∃ changed, after.get? id = some changed ∧ changed.next = block.next) :
    ∃ tail ∈ order, after.tailFrom id seen = .ok tail := by
  fun_induction tailFrom after id seen generalizing order with
  | case1 id seen old =>
    cases preorder with
    | hidden _ hidden _ => cases hidden
    | shown => exact absurd old (isNew id List.mem_cons_self)
  | case2 id seen unseen missing =>
    cases preorder with
    | hidden _ hidden _ => cases hidden
    | shown found =>
      obtain ⟨changed, lookup, -⟩ := same id List.mem_cons_self _ found
      cases missing.symm.trans lookup
  | case3 id seen unseen block lookup last =>
    cases preorder with
    | hidden _ hidden _ => cases hidden
    | shown => exact ⟨id, List.mem_cons_self, rfl⟩
  | case4 id seen unseen block lookup next below ih =>
    cases preorder with
    | hidden _ hidden _ => cases hidden
    | @shown _ old children _ inner later found visible inside rest =>
      cases visible
      cases rest
      obtain ⟨changed, stored, kept⟩ := same id List.mem_cons_self old found
      cases Option.some.inj (lookup.symm.trans stored)
      rw [Block.childIds, ← kept, below, Option.toList_some] at inside
      obtain ⟨front, back, rfl, -, lower⟩ := inside.split
      rw [List.append_nil, List.nodup_cons, List.nodup_append] at distinct
      have within : ∀ other ∈ back, other ∈ id :: (front ++ back) ++ [] := by
        intro other member
        simp [member]
      have unmet : ∀ other ∈ back, other ∉ id :: seen := by
        intro other member old
        rcases List.mem_cons.mp old with rfl | older
        · exact distinct.1 (List.mem_append_right _ member)
        · exact isNew other (within other member) older
      obtain ⟨tail, member, ended⟩ := ih back lower distinct.2.2.1 unmet fun other member =>
        same other (within other member)
      exact ⟨tail, within tail member, ended⟩

theorem tailOf_of_walked {root : String} {order : List String}
    (walked : arena.subtreeIds root = .ok order)
    (same : ∀ id ∈ order, ∀ block, arena.get? id = some block →
      ∃ changed, after.get? id = some changed ∧ changed.next = block.next) :
    ∃ tail ∈ order, after.tailOf root = .ok tail := by
  have explores := explores_of_subtreeIds walked
  exact tailFrom_of_preorder root [] order explores.preorder explores.nodup.1 (by simp) same

end

end Arena

end BlockGraph
