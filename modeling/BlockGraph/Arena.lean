import BlockGraph.Block
import BlockGraph.Identifier

/-!
Arenas: the blocks of one target by id, with the list of its scripts. A script is named by its
top-level block, and the list keeps the order in which scripts are shown.
-/

set_option autoImplicit false

namespace BlockGraph

structure Arena where
  blocks : Dict Block := ∅
  scripts : List String := []
  /-- Number of the last generated id. -/
  counter : Nat := 0
deriving DecidableEq

namespace Arena

def get? (arena : Arena) (id : String) : Option Block :=
  arena.blocks.get? id

def contains (arena : Arena) (id : String) : Bool :=
  arena.blocks.contains id

/-- Ids of the stored blocks in increasing order. -/
def ids (arena : Arena) : List String :=
  arena.blocks.keys

def size (arena : Arena) : Nat :=
  arena.blocks.size

/-- Scripts with `id` at the end, unless it is one already. -/
def withScript (scripts : List String) (id : String) : List String :=
  if scripts.contains id then scripts else scripts ++ [id]

def withoutScript (scripts : List String) (id : String) : List String :=
  scripts.filter fun script => script ≠ id

/-- Stores a block; a top-level one becomes a script. -/
def insert (arena : Arena) (id : String) (block : Block) : Arena :=
  { arena with
    blocks := arena.blocks.insert id block
    scripts := if block.topLevel then withScript arena.scripts id else arena.scripts }

def remove (arena : Arena) (id : String) : Arena :=
  { arena with blocks := arena.blocks.erase id, scripts := withoutScript arena.scripts id }

def removeAll (arena : Arena) (ids : List String) : Arena :=
  ids.foldl remove arena

def modifyBlock (arena : Arena) (id : String) (change : Block → Block) : Arena :=
  { arena with blocks := arena.blocks.modify id change }

/-- Makes a stored block the top of a script, or no longer one. A top has no parent, and only a top
has a place on the workspace. -/
def setTopLevel (arena : Arena) (id : String) (topLevel : Bool) : Arena :=
  if topLevel then
    { arena.modifyBlock id fun block => { block with topLevel := true, parent := none } with
      scripts := withScript arena.scripts id }
  else
    { arena.modifyBlock id fun block => { block with topLevel := false, x := none, y := none } with
      scripts := withoutScript arena.scripts id }

/-- Order of two optional keys: what has no key comes first. -/
def keyLe {κ : Type} (le : κ → κ → Bool) : Option κ → Option κ → Bool
  | none, _ => true
  | some _, none => false
  | some a, some b => le a b

/-- Sorts the scripts by a key of their blocks; scripts with equal keys keep their order. -/
def sortScripts {κ : Type} (arena : Arena) (key : String → Block → κ) (le : κ → κ → Bool) :
    Arena :=
  let keyOf (id : String) := (arena.get? id).map (key id)
  { arena with scripts := arena.scripts.mergeSort fun a b => keyLe le (keyOf a) (keyOf b) }

/-- A new id that starts with `stem`. -/
def freshId (arena : Arena) (stem : String) : String × Arena :=
  let number := Identifier.freshNumber arena.ids stem arena.counter
  (Identifier.make stem number, { arena with counter := number })

theorem get?_insert (arena : Arena) (id : String) (block : Block) (other : String) :
    (arena.insert id block).get? other = if id = other then some block else arena.get? other :=
  arena.blocks.get?_insert id block other

theorem get?_remove (arena : Arena) (id other : String) :
    (arena.remove id).get? other = if id = other then none else arena.get? other :=
  arena.blocks.get?_erase id other

theorem get?_modifyBlock (arena : Arena) (id : String) (change : Block → Block) (other : String) :
    (arena.modifyBlock id change).get? other =
      if other = id then (arena.get? other).map change else arena.get? other :=
  arena.blocks.get?_modify id change other

end Arena

end BlockGraph
