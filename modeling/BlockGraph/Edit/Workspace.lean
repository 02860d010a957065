import BlockGraph.Arena.Traversal
import BlockGraph.Project

/-!
Small changes of the blocks of one target, from which edits are composed, and the place of a new
script below all others.
-/

set_option autoImplicit false

namespace BlockGraph

namespace Arena

def stored (id : String) : Revision Arena Block := do
  Revision.follow ((← get).require id)

/-- Changes a block that has to be stored. -/
def update (id : String) (change : Block → Block) : Revision Arena Unit := do
  let _ ← stored id
  modify (·.modifyBlock id change)

/-- Makes a block that has to be stored the top of a script, or no longer one. -/
def markTopLevel (id : String) (topLevel : Bool) : Revision Arena Unit := do
  let _ ← stored id
  modify (·.setTopLevel id topLevel)

/-- A new id, whose number is spent. -/
def newId (stem : String) : Revision Arena String := do
  let (id, arena) := (← get).freshId stem
  set arena
  return id

/-- Removes a block and all it owns. -/
def discard (root : String) : Revision Arena (List String) := do
  let (ids, arena) ← Revision.follow ((← get).dispose root)
  set arena
  return ids

/-- Distance between a new script and the one above it. -/
def scriptGap : Binary64 := Binary64.ofInt 100

/-- Height for a new script: a gap below the lowest one, or the origin. -/
def nextScriptHeight (arena : Arena) : Binary64 :=
  let heights := arena.scripts.filterMap fun id => (arena.get? id).bind Block.y
  match heights with
  | [] => Binary64.zero
  | first :: rest =>
    let lowest := rest.foldl Binary64.max first
    (lowest.add scriptGap).getD lowest

end Arena

end BlockGraph
