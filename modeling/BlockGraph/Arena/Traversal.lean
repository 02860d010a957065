import BlockGraph.Arena
import BlockGraph.Fault

/-!
Walks through an arena along its links. The links of a document may be broken, so each walk keeps
the ids it has seen and ends at the first one that is missing or met twice; the stored ids it has
not seen grow fewer with each step.
-/

set_option autoImplicit false

namespace BlockGraph.Arena

/-- Number of stored ids that are not in `seen`. -/
def unseen (arena : Arena) (seen : List String) : Nat :=
  (arena.ids.filter fun id => id ∉ seen).length

theorem mem_ids_of_get? {arena : Arena} {id : String} {block : Block}
    (found : arena.get? id = some block) : id ∈ arena.ids :=
  (arena.blocks.contains_iff_mem_keys id).mp (by
    rw [Dict.contains]
    exact Option.isSome_iff_exists.mpr ⟨block, found⟩)

theorem unseen_lt {arena : Arena} {id : String} {block : Block} {seen : List String}
    (found : arena.get? id = some block) (isNew : id ∉ seen) :
    arena.unseen (id :: seen) < arena.unseen seen := by
  have split : arena.ids.filter (fun other => other ∉ id :: seen) =
      (arena.ids.filter fun other => other ∉ seen).filter fun other => other ≠ id := by
    rw [List.filter_filter]
    exact List.filter_congr fun other _ => by simp
  rw [unseen, split]
  refine List.length_filter_lt_length_iff_exists.mpr ⟨id, ?_, by simp⟩
  exact List.mem_filter.mpr ⟨mem_ids_of_get? found, by simpa using isNew⟩

def require (arena : Arena) (id : String) : Except Damage Block :=
  match arena.get? id with
  | none => .error (.missingBlock id)
  | some block => .ok block

/-- Ids met from an agenda, each block before the blocks it owns. -/
def collect (arena : Arena) (agenda seen : List String) : Except Damage (List String) :=
  match agenda with
  | [] => .ok []
  | id :: rest =>
    if _ : id ∈ seen then .error (.cyclicReference id)
    else
      match _ : arena.get? id with
      | none => .error (.missingBlock id)
      | some block => do
        -- The children go in front of the agenda, which makes the walk depth first. Nothing is ever
        -- taken out of `seen`, so a block that two others own ends the walk as a cycle does.
        let later ← arena.collect (block.childIds ++ rest) (id :: seen)
        return id :: later
termination_by arena.unseen seen
decreasing_by exact unseen_lt ‹_› ‹_›

/-- Ids of `root` and of all it owns, depth first. -/
def subtreeIds (arena : Arena) (root : String) : Except Damage (List String) :=
  arena.collect [root] []

/-- Removes `root` and all it owns, and gives their ids. -/
def dispose (arena : Arena) (root : String) : Except Damage (List String × Arena) := do
  let ids ← arena.subtreeIds root
  return (ids, arena.removeAll ids)

/-- The last block on the way down from `id`. -/
def tailFrom (arena : Arena) (id : String) (seen : List String) : Except Damage String :=
  if _ : id ∈ seen then .error (.cyclicChain id)
  else
    match _ : arena.get? id with
    | none => .error (.missingBlock id)
    | some block =>
      match block.next with
      | none => .ok id
      | some next => arena.tailFrom next (id :: seen)
termination_by arena.unseen seen
decreasing_by exact unseen_lt ‹_› ‹_›

/-- The last block of the sequence that goes on from `id`. -/
def tailOf (arena : Arena) (id : String) : Except Damage String :=
  arena.tailFrom id []

end BlockGraph.Arena
