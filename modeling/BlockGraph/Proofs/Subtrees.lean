import BlockGraph.Proofs.Dict
import BlockGraph.Proofs.Traversal

/-!
Walks through all that a block owns, in arenas of any shape. Such a walk gives a list exactly when the
root owns a tree: all that is reached is stored, and each of it is referred to once. The list is then
the preorder of the tree, and discarding the root removes just these blocks; where the walk is stopped,
nothing is removed.
-/

set_option autoImplicit false

namespace BlockGraph.Arena

open Revision Search

variable {arena : Arena} {root id : String} {agenda order : List String}

/-- The root, and whatever a block that is reached refers to, stored or not. -/
inductive Reaches (arena : Arena) (root : String) : String → Prop
  | root : Reaches arena root root
  | child {owner id : String} : Reaches arena root owner → id ∈ arena.childrenAt owner →
      Reaches arena root id

open scoped Classical in
/-- The stored blocks that are reached. -/
noncomputable def reachedIds (arena : Arena) (root : String) : List String :=
  arena.ids.filter fun id => arena.Reaches root id

/-- How often `id` is referred to by the blocks that are reached. The root is referred to once more,
by the one who asks for it. -/
noncomputable def references (arena : Arena) (root id : String) : Nat :=
  (root :: (arena.reachedIds root).flatMap arena.childrenAt).count id

/-- Preorder of the tree below a block, as far as a given depth: the block, and then the preorders of
the blocks that it owns. -/
def preorder (arena : Arena) : Nat → String → List String
  | 0, _ => []
  | depth + 1, id => id :: (arena.childrenAt id).flatMap (preorder arena depth)

theorem mem_reachedIds :
    id ∈ arena.reachedIds root ↔ (∃ block, arena.get? id = some block) ∧ arena.Reaches root id := by
  simp [reachedIds, mem_ids_iff]

theorem nodup_reachedIds (arena : Arena) (root : String) : (arena.reachedIds root).Nodup :=
  (Dict.nodup_keys arena.blocks).filter _

theorem Reaches.of_reached (reached : Reached arena owned [root] id) : arena.Reaches root id := by
  induction reached with
  | root member _ => exact List.mem_singleton.mp member ▸ .root
  | link _ member _ ih => exact .child ih (linksAt_owned arena ▸ member)

/-- A walk that ends meets all that is reached. -/
theorem Reaches.mem (reaches : arena.Reaches root id) (explores : Explores arena owned [root] [] order) :
    id ∈ order := by
  have met {other : String} (named : other ∈ [root] ++ order.flatMap (linksAt arena owned)) :
      other ∈ order :=
    explores.mem_of_named named (shown_owned.mpr (explores.stored other named))
  induction reaches with
  | root => exact met (List.mem_append_left _ (List.mem_singleton.mpr rfl))
  | child _ member ih =>
    rw [← linksAt_owned] at member
    exact met (List.mem_append_right _ (List.mem_flatMap.mpr ⟨_, ih, member⟩))

theorem mem_iff_reaches (explores : Explores arena owned [root] [] order) :
    id ∈ order ↔ arena.Reaches root id :=
  ⟨fun member => .of_reached (explores.mem_iff_reached.mp member), fun reaches => reaches.mem explores⟩

/-- A walk that ends meets the stored blocks that are reached. -/
theorem reachedIds_perm (explores : Explores arena owned [root] [] order) :
    (arena.reachedIds root).Perm order := by
  apply (List.perm_ext_iff_of_nodup (nodup_reachedIds arena root) explores.nodup.1).mpr
  intro id
  rw [mem_reachedIds, ← mem_iff_reaches explores]
  constructor
  · exact And.right
  · intro member
    exact ⟨shown_owned.mp (explores.mem_iff_reached.mp member).shown, member⟩

/-- Where a walk ends, each block that it meets is referred to once. -/
theorem references_eq_one (explores : Explores arena owned [root] [] order) (member : id ∈ order) :
    arena.references root id = 1 := by
  classical
  have shown : Shown arena owned id := (explores.mem_iff_reached.mp member).shown
  have named := explores.perm_named.count_eq id
  rw [List.count_filter (by simpa using shown), linksAt_owned,
    List.count_eq_one_of_mem explores.nodup.1 member] at named
  rw [references, List.count_cons, ((reachedIds_perm explores).flatMap_right _).count_eq]
  rwa [List.singleton_append, List.count_cons] at named

/-- What reached blocks name twice is referred to more than once. -/
theorem one_lt_references (twice : NamedTwice arena owned [root] id) :
    1 < arena.references root id := by
  obtain ⟨owners, distinct, reached, more⟩ := twice
  -- The owners are some of the reached blocks, so all of these together refer to it no less often.
  rw [linksAt_owned, List.singleton_append] at more
  have inside : owners.Subperm (arena.reachedIds root) := by
    apply distinct.subperm
    intro owner member
    exact mem_reachedIds.mpr ⟨shown_owned.mp (reached owner member).shown,
      .of_reached (reached owner member)⟩
  obtain ⟨part, same, sublist⟩ := inside
  have fewer := (sublist.flatMap arena.childrenAt).count_le id
  rw [(same.flatMap_right arena.childrenAt).count_eq] at fewer
  rw [List.count_cons] at more
  rw [references, List.count_cons]
  omega

/-- A walk gives a list exactly when the root owns a tree. -/
theorem subtreeIds_eq_ok_iff :
    (∃ order, arena.subtreeIds root = .ok order) ↔ ∀ id, arena.Reaches root id →
      (∃ block, arena.get? id = some block) ∧ arena.references root id = 1 := by
  constructor
  · rintro ⟨order, walked⟩ id reaches
    have explores := explores_of_subtreeIds walked
    have member := reaches.mem explores
    exact ⟨exists_of_walked walked member, references_eq_one explores member⟩
  · intro tree
    rcases collect_cases arena [root] [] with ⟨order, walked, -⟩ | ⟨-, blocked⟩
    · exact ⟨order, walked⟩
    exfalso
    rcases blocked.dangling_or_namedTwice with ⟨id, missing, named⟩ | ⟨id, reached, twice⟩
    · have reaches : arena.Reaches root id := by
        rcases named with isRoot | ⟨owner, reached, member⟩
        · exact List.mem_singleton.mp isRoot ▸ .root
        · exact .child (.of_reached reached) (linksAt_owned arena ▸ member)
      obtain ⟨⟨block, found⟩, -⟩ := tree id reaches
      cases missing.symm.trans found
    · have once := (tree id (.of_reached reached)).2
      have more := one_lt_references twice
      omega

/-- A preorder is computed by recursion, as soon as the depth is no less than its length. -/
theorem flatMap_preorder (listed : Search.Preorder arena owned agenda order) {depth : Nat}
    (enough : order.length ≤ depth) : agenda.flatMap (arena.preorder depth) = order := by
  induction listed generalizing depth with
  | done => rfl
  | hidden _ hidden _ _ => cases hidden
  | @shown id block below rest inner later found visible _ _ ihInner ihLater =>
    cases visible
    simp only [List.length_append, List.length_cons] at enough
    obtain ⟨depth, rfl⟩ : ∃ shallower, depth = shallower + 1 := ⟨depth - 1, by omega⟩
    rw [List.flatMap_cons, preorder, childrenAt_of_get? found, ihInner (by omega),
      ihLater (by omega)]

theorem preorder_of_walked (walked : arena.subtreeIds root = .ok order) {depth : Nat}
    (enough : arena.size ≤ depth) : arena.preorder depth root = order := by
  have explores := explores_of_subtreeIds walked
  have inside : order.Subperm arena.ids := by
    apply explores.nodup.1.subperm
    intro id member
    exact mem_ids_iff.mpr (exists_of_walked walked member)
  have few : order.length ≤ arena.size := by
    simpa [ids, Dict.keys, size, Dict.size] using inside.length_le
  have listed := flatMap_preorder explores.preorder (few.trans enough)
  rwa [List.flatMap_singleton] at listed

/-- Whatever the links of an arena are like, a walk through all that a block owns gives a list exactly
when all that is reached is stored and referred to once. The list has each block once, in preorder, and
discarding the block removes these blocks and scripts and no others; where the walk fails, discarding
the block changes nothing. -/
theorem discard_of_subtreeIds (arena : Arena) (root : String) :
    ((∃ order, arena.subtreeIds root = .ok order) ↔ ∀ id, arena.Reaches root id →
      (∃ block, arena.get? id = some block) ∧ arena.references root id = 1) ∧
    (∀ order, arena.subtreeIds root = .ok order →
      order.Nodup ∧ (∀ id, id ∈ order ↔ arena.Reaches root id) ∧
      (∀ depth, arena.size ≤ depth → arena.preorder depth root = order) ∧
      ∃ next, discard root arena = .ok order next ∧
        (∀ id, next.get? id = if id ∈ order then none else arena.get? id) ∧
        (next.scripts = arena.scripts.filter fun script => script ∉ order) ∧
        next.counter = arena.counter) ∧
    ∀ damage, arena.subtreeIds root = .error damage →
      discard root arena = .error (.damaged damage) arena := by
  refine ⟨subtreeIds_eq_ok_iff, fun order walked => ?_, fun damage failed => ?_⟩
  · have explores := explores_of_subtreeIds walked
    have removes : After (discard root) arena
        (fun gone next => gone = order ∧ next = arena.removeAll order) fun _ _ => False := by
      simp [walked]
    obtain ⟨_, _, ended, rfl, rfl⟩ := exists_ok_of_after removes
    exact ⟨explores.nodup.1, fun id => mem_iff_reaches explores, fun depth => preorder_of_walked walked,
      _, ended, get?_removeAll arena _, scripts_removeAll arena _, counter_removeAll arena _⟩
  · have keeps : After (discard root) arena (fun _ _ => False)
        fun fault next => fault = .damaged damage ∧ next = arena := by
      simp [failed]
    obtain ⟨_, _, ended, rfl, rfl⟩ := exists_error_of_after keeps
    exact ended

end BlockGraph.Arena
