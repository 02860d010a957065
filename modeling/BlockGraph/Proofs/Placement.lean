import BlockGraph.Edit.Splice

/-!
What the check of a placement establishes before any block moves.
-/

set_option autoImplicit false

namespace BlockGraph.Arena

variable {arena : Arena} {source target input : String} {moved owner : Block}

theorem movable_eq_ok {role : Role} {id : String} {block : Block}
    (found : arena.movable role id = .ok block) :
    arena.get? id = some block ∧ Catalog.kind block.opcode ≠ .shadow := by
  unfold movable at found
  split at found
  · cases found
  · rename_i stored lookup
    split at found
    · cases found
    · rename_i solid
      cases found
      exact ⟨lookup, solid⟩

theorem movable_of_get? {id : String} {block : Block} (found : arena.get? id = some block)
    (solid : Catalog.kind block.opcode ≠ .shadow) (role : Role) : arena.movable role id = .ok block := by
  simp [movable, found, solid]

/-- What a place asks of the block that owns it. -/
def Open (arena : Arena) (owner : Block) : Placement → Prop
  | .stackAfter => True
  | .statementInto input => ∃ branch, Branch.ofName? input = some branch
  | .valueInto input => Branch.ofName? input = none ∧
      ∀ id block, owner.plugged? input = some id → arena.get? id = some block →
        Catalog.kind block.opcode = .shadow

/-- What a place asks of the block that goes there: a hat stays at the top of its script, and a value
has no blocks below it. Hats are not kept from being values. -/
def Suits (moved : Block) : Placement → Prop
  | .stackAfter | .statementInto _ => Catalog.isHat moved.opcode = false
  | .valueInto _ => moved.next = none

theorem open_of_checkBranch (passed : checkBranch target input owner = .ok ()) :
    arena.Open owner (.statementInto input) := by
  unfold checkBranch at passed
  split at passed
  · cases passed
  · rename_i branch named
    exact ⟨branch, named⟩

theorem open_of_checkValueInput
    (passed : arena.checkValueInput source target input moved owner = .ok ()) :
    arena.Open owner (.valueInto input) ∧ moved.next = none := by
  simp only [checkValueInput, bind, Except.bind, throw, throwThe, MonadExceptOf.throw, pure,
    Except.pure] at passed
  split at passed
  · cases passed
  rename_i notBranch
  split at passed
  · cases passed
  rename_i last
  split at passed
  · cases passed
  split at passed
  · cases passed
  rename_i notOccupied
  refine ⟨⟨by simpa using notBranch, fun id block plugged found => ?_⟩, by simpa using last⟩
  simpa [plugged, found] using notOccupied

/-- A placement that passed its check. -/
structure Placeable (arena : Arena) (source target : String) (placement : Placement)
    (moved owner : Block) (subtree : List String) : Prop where
  foundSource : arena.get? source = some moved
  foundTarget : arena.get? target = some owner
  solid : Catalog.kind moved.opcode ≠ .shadow
  walked : arena.subtreeIds source = .ok subtree
  outside : target ∉ subtree
  isOpen : arena.Open owner placement
  suits : Suits moved placement

theorem placeable_of_check {placement : Placement}
    (passed : arena.checkPlacement source target placement = .ok ()) :
    ∃ moved owner subtree, arena.Placeable source target placement moved owner subtree := by
  unfold checkPlacement at passed
  cases movedFound : arena.movable .source source with
  | error fault => simp [movedFound, bind, Except.bind] at passed
  | ok moved =>
  cases ownerFound : arena.movable .target target with
  | error fault => simp [movedFound, ownerFound, bind, Except.bind] at passed
  | ok owner =>
  cases walked : arena.subtreeIds source with
  | error fault =>
    simp [movedFound, ownerFound, walked, Damage.orFault, bind, Except.bind] at passed
  | ok subtree =>
    simp only [movedFound, ownerFound, walked, Damage.orFault, bind, Except.bind, throw, throwThe,
      MonadExceptOf.throw] at passed
    split at passed
    · cases passed
    rename_i outside
    have asked : arena.Open owner placement ∧ Suits moved placement := by
      cases placement with
      | stackAfter =>
        simp only at passed
        split at passed
        · cases passed
        · rename_i notHat
          exact ⟨trivial, Bool.eq_false_iff.mpr notHat⟩
      | statementInto input =>
        simp only at passed
        split at passed
        · cases passed
        · rename_i notHat
          exact ⟨open_of_checkBranch passed, Bool.eq_false_iff.mpr notHat⟩
      | valueInto input => exact open_of_checkValueInput passed
    exact ⟨moved, owner, subtree, (movable_eq_ok movedFound).1, (movable_eq_ok ownerFound).1,
      (movable_eq_ok movedFound).2, walked, by simpa using outside, asked.1, asked.2⟩

end BlockGraph.Arena
