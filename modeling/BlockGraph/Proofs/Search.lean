import BlockGraph.Arena.Traversal
import Mathlib.Data.List.Perm.Basic
import Mathlib.Data.List.Perm.Subperm
import Mathlib.Data.List.Flatten
import Mathlib.Data.List.Nodup

/-!
Depth-first searches through an arena. A search follows the links of each block it shows, passes
over hidden blocks, and is blocked by a missing block or by one that it would show twice. Every
search either shows each reached block once, in preorder, or is blocked; and it is blocked only if
some link leads nowhere or some block is named more than once.
-/

set_option autoImplicit false

namespace BlockGraph.Search

section

variable (arena : Arena) (links : Block → Option (List String))

/-- What a shown block refers to; nothing for a hidden or a missing one. -/
def linksAt (id : String) : List String :=
  ((arena.get? id).bind links).getD []

/-- A stored block that a search shows rather than hides. -/
def Shown (id : String) : Prop :=
  ∃ block below, arena.get? id = some block ∧ links block = some below

/-- The least set that has the shown roots and the shown blocks that a member refers to. -/
inductive Reached (roots : List String) : String → Prop
  | root {id : String} : id ∈ roots → Shown arena links id → Reached roots id
  | link {owner id : String} : Reached roots owner → id ∈ linksAt arena links owner →
      Shown arena links id → Reached roots id

/-- A root or a link of a reached block that leads nowhere. -/
def Dangling (roots : List String) : Prop :=
  ∃ id, arena.get? id = none ∧
    (id ∈ roots ∨ ∃ owner, Reached arena links roots owner ∧ id ∈ linksAt arena links owner)

/-- The roots and the links of some reached blocks name `id` more than once. -/
def NamedTwice (roots : List String) (id : String) : Prop :=
  ∃ owners : List String, owners.Nodup ∧ (∀ owner ∈ owners, Reached arena links roots owner) ∧
    1 < (roots ++ owners.flatMap (linksAt arena links)).count id

/-- Preorder of the trees below a list of blocks: a shown block, then the trees below its links. -/
inductive Preorder : List String → List String → Prop
  | done : Preorder [] []
  | hidden {id : String} {block : Block} {rest order : List String} :
      arena.get? id = some block → links block = none → Preorder rest order →
      Preorder (id :: rest) order
  | shown {id : String} {block : Block} {below rest inner later : List String} :
      arena.get? id = some block → links block = some below → Preorder below inner →
      Preorder rest later → Preorder (id :: rest) (id :: inner ++ later)

/-- A search that ends: agenda, blocks shown before, and blocks shown by the search in order. -/
inductive Explores : List String → List String → List String → Prop
  | done {seen : List String} : Explores [] seen []
  | hidden {id : String} {block : Block} {rest seen order : List String} :
      arena.get? id = some block → links block = none → Explores rest seen order →
      Explores (id :: rest) seen order
  | shown {id : String} {block : Block} {below rest seen order : List String} :
      arena.get? id = some block → links block = some below → id ∉ seen →
      Explores (below ++ rest) (id :: seen) order → Explores (id :: rest) seen (id :: order)

/-- A search that meets a missing block, or a shown one for the second time. -/
inductive Blocked : List String → List String → Prop
  | missing {id : String} {rest seen : List String} :
      arena.get? id = none → Blocked (id :: rest) seen
  | repeated {id : String} {rest seen : List String} :
      Shown arena links id → id ∈ seen → Blocked (id :: rest) seen
  | hidden {id : String} {block : Block} {rest seen : List String} :
      arena.get? id = some block → links block = none → Blocked rest seen →
      Blocked (id :: rest) seen
  | shown {id : String} {block : Block} {below rest seen : List String} :
      arena.get? id = some block → links block = some below → id ∉ seen →
      Blocked (below ++ rest) (id :: seen) → Blocked (id :: rest) seen

end

variable {arena : Arena} {links : Block → Option (List String)}
  {roots agenda seen order : List String} {id : String} {block : Block} {below : List String}

theorem linksAt_of_shown (found : arena.get? id = some block) (visible : links block = some below) :
    linksAt arena links id = below := by
  simp [linksAt, found, visible]

theorem not_shown_of_hidden (found : arena.get? id = some block) (hidden : links block = none) :
    ¬Shown arena links id := by
  rintro ⟨other, below, found', visible⟩
  obtain rfl := Option.some.inj (found.symm.trans found')
  rw [hidden] at visible
  cases visible

theorem Reached.shown (reached : Reached arena links roots id) : Shown arena links id := by
  cases reached with
  | root _ shown => exact shown
  | link _ _ shown => exact shown

/-- Preorders of concatenated lists are concatenated. -/
theorem Preorder.split {first second : List String}
    (preorder : Preorder arena links (first ++ second) order) :
    ∃ inner later, order = inner ++ later ∧ Preorder arena links first inner ∧
      Preorder arena links second later := by
  induction first generalizing order with
  | nil => exact ⟨[], order, rfl, .done, preorder⟩
  | cons head rest ih =>
    rw [List.cons_append] at preorder
    cases preorder with
    | hidden found hidden tail =>
      obtain ⟨inner, later, rfl, left, right⟩ := ih tail
      exact ⟨inner, later, rfl, .hidden found hidden left, right⟩
    | @shown _ _ _ _ own _ found visible head tail =>
      obtain ⟨inner, later, rfl, left, right⟩ := ih tail
      exact ⟨_ :: own ++ inner, later, by simp, .shown found visible head left, right⟩

theorem Preorder.append {first second inner later : List String}
    (left : Preorder arena links first inner) (right : Preorder arena links second later) :
    Preorder arena links (first ++ second) (inner ++ later) := by
  induction left with
  | done => exact right
  | hidden found hidden _ ih => exact .hidden found hidden ih
  | shown found visible head _ _ ih =>
    rw [List.cons_append, List.append_assoc]
    exact .shown found visible head ih

namespace Explores

theorem preorder (explores : Explores arena links agenda seen order) :
    Preorder arena links agenda order := by
  induction explores with
  | done => exact .done
  | hidden found hidden _ ih => exact .hidden found hidden ih
  | shown found visible _ _ ih =>
    obtain ⟨inner, later, rfl, head, tail⟩ := ih.split
    exact .shown found visible head tail

/-- A search deals with the first part of its agenda before it comes to the second. -/
theorem split {first second : List String}
    (explores : Explores arena links (first ++ second) seen order) :
    ∃ inner later passed, order = inner ++ later ∧ Explores arena links first seen inner ∧
      Explores arena links second passed later := by
  generalize whole : first ++ second = agenda at explores
  induction explores generalizing first with
  | @done seen =>
    obtain ⟨rfl, rfl⟩ := List.append_eq_nil_iff.mp whole
    exact ⟨[], [], seen, rfl, .done, .done⟩
  | @hidden id block rest seen order found hidden tail ih =>
    cases first with
    | nil =>
      subst whole
      exact ⟨[], order, seen, rfl, .done, .hidden found hidden tail⟩
    | cons head front =>
      cases whole
      obtain ⟨inner, later, passed, rfl, left, right⟩ := ih rfl
      exact ⟨inner, later, passed, rfl, .hidden found hidden left, right⟩
  | @shown id block below rest seen order found visible isNew tail ih =>
    cases first with
    | nil =>
      subst whole
      exact ⟨[], id :: order, seen, rfl, .done, .shown found visible isNew tail⟩
    | cons head front =>
      cases whole
      obtain ⟨inner, later, passed, rfl, left, right⟩ := ih (List.append_assoc below front second)
      exact ⟨id :: inner, later, passed, rfl, .shown found visible isNew left, right⟩

theorem nodup (explores : Explores arena links agenda seen order) :
    order.Nodup ∧ ∀ id ∈ order, id ∉ seen := by
  induction explores with
  | done => simp
  | hidden _ _ _ ih => exact ih
  | shown _ _ isNew _ ih =>
    refine ⟨List.nodup_cons.mpr ⟨fun member => ?_, ih.1⟩, ?_⟩
    · exact ih.2 _ member List.mem_cons_self
    · intro id member
      rcases List.mem_cons.mp member with rfl | later
      · exact isNew
      · exact fun old => ih.2 id later (List.mem_cons_of_mem _ old)

/-- Every id that the agenda or a shown block names is stored. -/
theorem stored (explores : Explores arena links agenda seen order) :
    ∀ id ∈ agenda ++ order.flatMap (linksAt arena links), ∃ block, arena.get? id = some block := by
  induction explores with
  | done => simp
  | @hidden head block rest _ _ found _ _ ih =>
    intro id member
    rcases List.mem_cons.mp member with rfl | later
    · exact ⟨block, found⟩
    · exact ih id later
  | @shown head block below rest _ order found visible _ _ ih =>
    intro id member
    rw [List.cons_append, List.flatMap_cons, linksAt_of_shown found visible] at member
    rcases List.mem_cons.mp member with rfl | later
    · exact ⟨block, found⟩
    · refine ih id ?_
      simp only [List.mem_append] at later ⊢
      tauto

open scoped Classical in
/-- The agenda and the links of the shown blocks name each shown block once. -/
theorem perm_named (explores : Explores arena links agenda seen order) :
    ((agenda ++ order.flatMap (linksAt arena links)).filter
      fun id => Shown arena links id).Perm order := by
  induction explores with
  | done => simp
  | hidden found hidden _ ih =>
    rw [List.cons_append, List.filter_cons_of_neg (by simpa using not_shown_of_hidden found hidden)]
    exact ih
  | @shown head block below rest _ order found visible _ _ ih =>
    have isShown : Shown arena links head := ⟨block, below, found, visible⟩
    rw [List.cons_append, List.filter_cons_of_pos (by simpa using isShown), List.flatMap_cons,
      linksAt_of_shown found visible]
    refine List.Perm.cons _ (List.Perm.trans (List.Perm.filter _ ?_) ih)
    rw [List.append_assoc, ← List.append_assoc, ← List.append_assoc]
    exact List.Perm.append_right _ List.perm_append_comm

theorem mem_of_named (explores : Explores arena links agenda seen order)
    (named : id ∈ agenda ++ order.flatMap (linksAt arena links)) (shown : Shown arena links id) :
    id ∈ order := by
  classical
  exact explores.perm_named.mem_iff.mp (List.mem_filter.mpr ⟨named, by simpa using shown⟩)

/-- What is shown later is reached from what was on the agenda. -/
theorem reached (explores : Explores arena links agenda seen order)
    (fromRoots : ∀ id ∈ agenda, Shown arena links id → Reached arena links roots id) :
    ∀ id ∈ order, Reached arena links roots id := by
  induction explores with
  | done => simp
  | hidden _ _ _ ih => exact ih fun id member => fromRoots id (List.mem_cons_of_mem _ member)
  | @shown head block below rest _ order found visible _ _ ih =>
    have headReached := fromRoots head List.mem_cons_self ⟨block, below, found, visible⟩
    intro id member
    rcases List.mem_cons.mp member with rfl | later
    · exact headReached
    · refine ih (fun other named shown => ?_) id later
      rcases List.mem_append.mp named with child | old
      · exact .link headReached (linksAt_of_shown found visible ▸ child) shown
      · exact fromRoots other (List.mem_cons_of_mem _ old) shown

theorem mem_iff_reached (explores : Explores arena links roots seen order) :
    id ∈ order ↔ Reached arena links roots id := by
  constructor
  · exact explores.reached (fun id member shown => .root member shown) id
  · intro reached
    induction reached with
    | root member shown =>
      exact explores.mem_of_named (List.mem_append_left _ member) shown
    | link _ member shown ih =>
      exact explores.mem_of_named
        (List.mem_append_right _ (List.mem_flatMap.mpr ⟨_, ih, member⟩)) shown

theorem not_dangling (explores : Explores arena links roots [] order) :
    ¬Dangling arena links roots := by
  rintro ⟨id, missing, named⟩
  have member : id ∈ roots ++ order.flatMap (linksAt arena links) := by
    rcases named with root | ⟨owner, reached, link⟩
    · exact List.mem_append_left _ root
    · exact List.mem_append_right _
        (List.mem_flatMap.mpr ⟨owner, explores.mem_iff_reached.mpr reached, link⟩)
  obtain ⟨block, found⟩ := explores.stored id member
  rw [missing] at found
  cases found

theorem not_namedTwice (explores : Explores arena links roots [] order)
    (shown : Shown arena links id) : ¬NamedTwice arena links roots id := by
  classical
  rintro ⟨owners, distinct, reached, twice⟩
  have sub : owners.Subperm order :=
    distinct.subperm fun owner member => explores.mem_iff_reached.mpr (reached owner member)
  have fewer : (roots ++ owners.flatMap (linksAt arena links)).count id ≤
      (roots ++ order.flatMap (linksAt arena links)).count id := by
    obtain ⟨part, same, sublist⟩ := sub
    rw [List.count_append, List.count_append, ← (same.flatMap_right _).count_eq]
    exact Nat.add_le_add_left ((sublist.flatMap _).count_le id) _
  have once := (List.nodup_iff_count_le_one.mp explores.nodup.1) id
  rw [← explores.perm_named.count_eq, List.count_filter (by simpa using shown)] at once
  omega

end Explores

open scoped Classical in
/-- A blocked search met a link that leads nowhere or a block named twice. All that was named so far
is either on the agenda or has been dealt with, and each shown block has been dealt with once. -/
theorem Blocked.fault (blocked : Blocked arena links agenda seen) {dealt : List String}
    (distinct : seen.Nodup) (reached : ∀ id ∈ seen, Reached arena links roots id)
    (named : (roots ++ seen.flatMap (linksAt arena links)).Perm (dealt ++ agenda))
    (shownDealt : ∀ id ∈ seen, id ∈ dealt) :
    Dangling arena links roots ∨
      ∃ id, Reached arena links roots id ∧ NamedTwice arena links roots id := by
  induction blocked generalizing dealt with
  | @missing id rest seen missing =>
    have member : id ∈ roots ++ seen.flatMap (linksAt arena links) :=
      named.mem_iff.mpr (by simp)
    refine .inl ⟨id, missing, ?_⟩
    rcases List.mem_append.mp member with root | link
    · exact .inl root
    · obtain ⟨owner, old, link⟩ := List.mem_flatMap.mp link
      exact .inr ⟨owner, reached owner old, link⟩
  | @repeated id rest seen shown old =>
    refine .inr ⟨id, reached id old, seen, distinct, reached, ?_⟩
    have first := List.count_pos_iff.mpr (shownDealt id old)
    rw [named.count_eq, List.count_append, List.count_cons_self]
    omega
  | @hidden id block rest seen found hidden _ ih =>
    have stillNamed : (roots ++ seen.flatMap (linksAt arena links)).Perm
        (dealt ++ [id] ++ rest) := by simpa using named
    exact ih distinct reached stillNamed fun other old =>
      List.mem_append_left _ (shownDealt other old)
  | @shown id block below rest seen found visible isNew _ ih =>
    have member : id ∈ roots ++ seen.flatMap (linksAt arena links) :=
      named.mem_iff.mpr (by simp)
    have isReached : Reached arena links roots id := by
      rcases List.mem_append.mp member with root | link
      · exact .root root ⟨block, below, found, visible⟩
      · obtain ⟨owner, old, link⟩ := List.mem_flatMap.mp link
        exact .link (reached owner old) link ⟨block, below, found, visible⟩
    have stillNamed : (roots ++ (id :: seen).flatMap (linksAt arena links)).Perm
        (dealt ++ [id] ++ (below ++ rest)) := by
      rw [List.flatMap_cons, linksAt_of_shown found visible]
      calc (roots ++ (below ++ seen.flatMap (linksAt arena links))).Perm
            (below ++ (roots ++ seen.flatMap (linksAt arena links))) := by
              rw [← List.append_assoc, ← List.append_assoc]
              exact List.Perm.append_right _ List.perm_append_comm
        List.Perm _ (below ++ (dealt ++ id :: rest)) := List.Perm.append_left _ named
        List.Perm _ (dealt ++ id :: rest ++ below) := List.perm_append_comm
        List.Perm _ (dealt ++ [id] ++ (below ++ rest)) := by
              rw [List.append_assoc, List.append_assoc]
              exact List.Perm.append_left _ (List.Perm.cons _ List.perm_append_comm)
    refine ih (List.nodup_cons.mpr ⟨isNew, distinct⟩) ?_ stillNamed ?_
    · intro other old
      rcases List.mem_cons.mp old with rfl | older
      · exact isReached
      · exact reached other older
    · intro other old
      rcases List.mem_cons.mp old with rfl | older
      · simp
      · exact List.mem_append_left _ (shownDealt other older)

/-- A search is blocked only by a link that leads nowhere or a block named twice. -/
theorem Blocked.dangling_or_namedTwice (blocked : Blocked arena links roots []) :
    Dangling arena links roots ∨
      ∃ id, Reached arena links roots id ∧ NamedTwice arena links roots id :=
  have named : (roots ++ [].flatMap (linksAt arena links)).Perm ([] ++ roots) := by simp
  blocked.fault (by simp) (by simp) named (by simp)

end BlockGraph.Search
