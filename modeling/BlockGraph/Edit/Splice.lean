import BlockGraph.Catalog.Spec
import BlockGraph.Edit.Placement
import BlockGraph.Edit.Workspace

/-!
Moving and deleting blocks. A block moves with all that it owns, the blocks below it included; a
deleted block takes along its inputs and branches, and the block below it takes its place.
-/

set_option autoImplicit false

namespace BlockGraph

namespace Arena

/-- Puts `new` in the place of `old` on its parent. -/
def relink (parent old : String) (new : Option String) : Revision Arena Unit := do
  let block ← stored parent
  match block.replaceChild? old new with
  | none => throw (.damaged (.unlinked old parent))
  | some changed => modify (·.modifyBlock parent fun _ => changed)

/-- Takes a block from its parent, if it has one. -/
def unlink (id : String) : Revision Arena Unit := do
  let block ← stored id
  match block.parent with
  | none => return ()
  | some parent =>
    relink parent id none
    update id ({ · with parent := none })

/-- Hangs a displaced sequence below the last block of another one. -/
def reattach (head : String) (displaced : Option String) : Revision Arena Unit := do
  match displaced with
  | none => return ()
  | some displaced =>
    let tail ← Revision.follow ((← get).tailOf head)
    update tail ({ · with next := some displaced })
    update displaced ({ · with parent := some tail })

/-- A block that may be moved: shadows stay in their input. -/
def movable (arena : Arena) (role : Role) (id : String) : Except Fault Block :=
  match arena.get? id with
  | none => .error (.roleNotFound role id)
  | some block =>
    if Catalog.kind block.opcode = .shadow then .error (.immovableShadow role id) else .ok block

/-- A value input that can take a block holds none but a shadow. -/
def checkValueInput (arena : Arena) (source target input : String) (moved owner : Block) :
    Except Fault Unit := do
  if (Branch.ofName? input).isSome then throw (.statementInput input)
  if moved.next.isSome then throw (.blocksBelow source)
  if (owner.input? input).isNone && !(Catalog.expectedInputs owner.opcode).contains input then
    throw (.inputUnknown input target)
  let plugged := (owner.plugged? input).bind arena.get?
  if plugged.any fun block => Catalog.kind block.opcode ≠ .shadow then
    throw (.inputOccupied input target)

/-- A branch can take a block if the block type declares it or it is in use. -/
def checkBranch (target input : String) (owner : Block) : Except Fault Unit :=
  match Branch.ofName? input with
  | none => .error (.notStatementInput input)
  | some branch =>
    if (Catalog.expectedBranches owner.opcode).contains branch ||
        (owner.branch branch).isSome then .ok ()
    else .error (.noBranch target owner.opcode input)

/-- Whether `source` may go to its place on `target`. -/
def checkPlacement (arena : Arena) (source target : String) (placement : Placement) :
    Except Fault Unit := do
  let moved ← arena.movable .source source
  let owner ← arena.movable .target target
  let subtree ← Damage.orFault (arena.subtreeIds source)
  if subtree.contains target then throw (.insideSource target source)
  match placement with
  | .stackAfter => if Catalog.isHat moved.opcode then throw (.hatBelow source)
  | .statementInto input =>
    if Catalog.isHat moved.opcode then throw (.hatBelow source)
    checkBranch target input owner
  | .valueInto input => arena.checkValueInput source target input moved owner

/-- Puts a block that has no place into one on `target`. -/
def attach (source target : String) (placement : Placement) : Revision Arena Unit := do
  let owner ← stored target
  match placement with
  | .stackAfter =>
    update target ({ · with next := some source })
    reattach source owner.next
  | .statementInto input =>
    if let some branch := Branch.ofName? input then
      update target (·.setBranch branch (some source))
      reattach source (owner.branch branch)
  | .valueInto input =>
    update target (·.withInput input fun slot =>
      -- A block plugged in here can only be a shadow; it stays as the shadow of the input.
      { slot with block := some source, shadow := slot.shadow.or slot.block })

/-- Moves `source` to a place on `target`. -/
def connect (source target : String) (placement : Placement) : Revision Arena Unit := do
  Revision.check ((← get).checkPlacement source target placement)
  unlink source
  markTopLevel source false
  update source ({ · with parent := some target })
  attach source target placement

/-- Makes a block a script of its own, and gives the parent it had. -/
def detach (id : String) : Revision Arena (Option String) := do
  let block ← Revision.check ((← get).movable .source id)
  if block.parent.isSome then
    -- Taken before the block becomes a script, so that its own height does not count.
    let height := (← get).nextScriptHeight
    unlink id
    markTopLevel id true
    update id ({ · with x := some Binary64.zero, y := some height })
  return block.parent

end Arena

/-- A deleted block, and the ids of all that went with it. -/
structure Deletion where
  opcode : String
  topLevel : Bool
  removed : List String
deriving DecidableEq

namespace Arena

/-- Deletes a block. The block below it goes to its parent, or becomes a script in its place. -/
def delete (id : String) : Revision Arena Deletion := do
  let block ← Revision.check ((← get).movable .target id)
  match block.parent, block.next with
  | some parent, next => relink parent id next
  | none, some next =>
    markTopLevel next true
    update next ({ · with x := block.x, y := block.y })
  | none, none => pure ()
  -- Cut loose from the block below, which `discard` would otherwise remove as well.
  if let some next := block.next then
    update next ({ · with parent := block.parent })
    update id ({ · with next := none })
  let removed ← discard id
  return ⟨block.opcode, block.topLevel, removed⟩

end Arena

namespace Project

def onEditingBlocks {α : Type} (change : Revision Arena α) : Revision Project α := do
  let index ← editingIndex
  onBlocks index change

def connectBlocks (source target : String) (placement : Placement) : Revision Project Unit :=
  onEditingBlocks (Arena.connect source target placement)

def detachBlocks (id : String) : Revision Project (Option String) :=
  onEditingBlocks (Arena.detach id)

def deleteBlock (id : String) : Revision Project Deletion :=
  onEditingBlocks (Arena.delete id)

end Project

end BlockGraph
