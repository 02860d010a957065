import BlockGraph.Proofs.Listing
import BlockGraph.Proofs.WellLinked.Projects

/-!
Well-linked targets can be listed. What the lines of a block refer to is part of what it owns, so no
reference leads nowhere, and none leads to a script or to a block that another one refers to.
-/

set_option autoImplicit false

namespace BlockGraph

open Search

namespace Outline

theorem references_sublist_childIds (block : Block) :
    (references block).Sublist block.childIds := by
  have inputs : (block.inputs.filterMap Input.block).Sublist
      (block.inputs.flatMap Input.childIds) := by
    rw [List.filterMap_eq_flatMap_toList]
    induction block.inputs with
    | nil => exact .slnil
    | cons input rest ih =>
      rw [List.flatMap_cons, List.flatMap_cons]
      exact (List.sublist_append_left _ _).append ih
  exact (inputs.append_right _).append_right _

variable {arena : Arena}

theorem linksAt_sublist_childrenAt (arena : Arena) (id : String) :
    (linksAt arena visible id).Sublist (arena.childrenAt id) := by
  rw [linksAt, Arena.childrenAt]
  cases arena.get? id with
  | none => exact .slnil
  | some block =>
    rw [Option.bind_some, visible]
    split
    · exact references_sublist_childIds block
    · exact List.nil_sublist _

/-- Scripts and references of different blocks name every block at most once. -/
theorem nodup_named (linked : arena.WellLinked) {owners : List String} (distinct : owners.Nodup) :
    (arena.scripts ++ owners.flatMap (linksAt arena visible)).Nodup := by
  have forest := linked.forest
  apply List.nodup_append.mpr
  refine ⟨linked.tidy.distinctScripts, ?_, ?_⟩
  · apply List.nodup_flatMap.mpr
    constructor
    · intro owner _
      exact (forest.distinct owner).sublist (linksAt_sublist_childrenAt arena owner)
    · refine distinct.imp ?_
      intro first second different other left right
      have up := forest.parent_of_mem ((linksAt_sublist_childrenAt arena first).subset left)
      have up' := forest.parent_of_mem ((linksAt_sublist_childrenAt arena second).subset right)
      exact different (Option.some.inj (up.symm.trans up'))
  · rintro script listed child named rfl
    obtain ⟨owner, -, link⟩ := List.mem_flatMap.mp named
    have up := forest.parent_of_mem ((linksAt_sublist_childrenAt arena owner).subset link)
    exact linked.not_script_of_parent? up listed

theorem not_faulty_of_wellLinked (linked : arena.WellLinked) : ¬Faulty arena := by
  rintro (⟨owner, id, -, link, missing⟩ | ⟨id, -, owners, distinct, -, twice⟩)
  · obtain ⟨block, found⟩ :=
      linked.found_of_mem ((linksAt_sublist_childrenAt arena owner).subset link)
    rw [missing] at found
    cases found
  · have once := List.nodup_iff_count_le_one.mp (nodup_named linked distinct) id
    omega

end Outline

namespace Project

variable {project : Project} {index : Nat} {target : Target}

/-- A well-linked target that is edited can be listed. -/
theorem listing_of_required (required : project.requireEditing = .ok (index, target))
    (linked : target.blocks.WellLinked) (editor : Editor) (options : ListingOptions) :
    ∃ listing, project.listing editor options = .ok listing ∧ listing.Shows target.blocks := by
  rcases listing_cases required linked.tidy editor options with ⟨faulty, -⟩ | ⟨-, listed⟩
  · exact absurd faulty (Outline.not_faulty_of_wellLinked linked)
  · exact listed

theorem listing_of_wellLinked (linked : project.WellLinked)
    (required : project.requireEditing = .ok (index, target)) (editor : Editor)
    (options : ListingOptions) :
    ∃ listing, project.listing editor options = .ok listing ∧ listing.Shows target.blocks :=
  listing_of_required required (linked.get (requireEditing_eq_ok required).2) editor options

/-- Only the choice of a target can keep a well-linked project from being listed. -/
theorem refuses_listing (linked : project.WellLinked) (editor : Editor)
    (options : ListingOptions) : Refuses (project.listing editor options) := by
  intro fault failed
  cases required : project.requireEditing with
  | error refused =>
    simp only [listing, required, bind, Except.bind] at failed
    cases failed
    exact refuses_requireEditing project fault required
  | ok chosen =>
    obtain ⟨listing, listed, -⟩ := listing_of_wellLinked linked required editor options
    rw [listed] at failed
    cases failed

end Project

end BlockGraph
