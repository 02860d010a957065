import BlockGraph.Branch
import BlockGraph.Json.Value

/-!
Blocks: the nodes of a program graph. A block refers to other blocks by id, through its value
inputs, its branches and the block below it.
-/

set_option autoImplicit false

namespace BlockGraph

structure Field where
  value : String
  /-- Entity that the value names, for variables, lists and messages. -/
  id : Option String
deriving DecidableEq

namespace Field

def plain (value : String) : Field :=
  ⟨value, none⟩

def reference (value id : String) : Field :=
  ⟨value, some id⟩

end Field

structure Input where
  name : String
  /-- Block plugged in now; it may be the shadow itself. -/
  block : Option String
  /-- Shadow of the input; it shows when no other block is plugged in. -/
  shadow : Option String
deriving DecidableEq

namespace Input

def empty (name : String) : Input :=
  ⟨name, none, none⟩

def modifyFirst (test : Input → Bool) (change : Input → Input) : List Input → List Input
  | [] => []
  | input :: rest =>
    if test input then change input :: rest else input :: modifyFirst test change rest

/-- Ids of the blocks in the input, a shadow that is plugged in counting once. -/
def childIds (input : Input) : List String :=
  input.block.toList ++ (input.shadow.filter fun id => input.block ≠ some id).toList

end Input

/-- Heads of the two branches. -/
structure Branches where
  first : Option String := none
  second : Option String := none
deriving DecidableEq

namespace Branches

def get (branches : Branches) : Branch → Option String
  | .first => branches.first
  | .second => branches.second

def set (branches : Branches) (branch : Branch) (head : Option String) : Branches :=
  match branch with
  | .first => { branches with first := head }
  | .second => { branches with second := head }

@[simp]
theorem get_set (branches : Branches) (branch other : Branch) (head : Option String) :
    (branches.set branch head).get other = if branch = other then head else branches.get other := by
  cases branch <;> cases other <;> rfl

end Branches

structure Block where
  opcode : String
  fields : Dict Field := ∅
  inputs : List Input := []
  branches : Branches := {}
  /-- The block below. -/
  next : Option String := none
  parent : Option String := none
  topLevel : Bool := false
  x : Option Binary64 := none
  y : Option Binary64 := none
  /-- Data of custom blocks, carried along as it is. -/
  mutation : Option Json := none
deriving DecidableEq

namespace Block

def input? (block : Block) (name : String) : Option Input :=
  block.inputs.find? fun input => input.name = name

/-- Block plugged into the input called `name`. -/
def plugged? (block : Block) (name : String) : Option String :=
  (block.input? name).bind Input.block

/-- Changes the input called `name`, if there is one. -/
def modifyInput (block : Block) (name : String) (change : Input → Input) : Block :=
  { block with inputs := Input.modifyFirst (fun input => input.name = name) change block.inputs }

/-- Changes the input called `name`, which is added as an empty one when it is missing. -/
def withInput (block : Block) (name : String) (change : Input → Input) : Block :=
  if (block.input? name).isSome then block.modifyInput name change
  else { block with inputs := block.inputs ++ [change (Input.empty name)] }

def withoutInput (block : Block) (name : String) : Block :=
  { block with inputs := block.inputs.filter fun input => input.name ≠ name }

def branch (block : Block) (branch : Branch) : Option String :=
  block.branches.get branch

def setBranch (block : Block) (branch : Branch) (head : Option String) : Block :=
  { block with branches := block.branches.set branch head }

/-- The field with the least name. -/
def firstField? (block : Block) : Option (String × Field) :=
  block.fields.entries.head?

/-- Puts `new` in the first place that refers to `old`: below the block, in a branch, or in an
input, which falls back to its shadow when there is no new block. -/
def replaceChild? (block : Block) (old : String) (new : Option String) : Option Block :=
  if block.next = some old then some { block with next := new }
  else
    match Branch.all.find? fun branch => block.branch branch = some old with
    | some branch => some (block.setBranch branch new)
    | none =>
      let holds (input : Input) : Bool := input.block = some old
      if block.inputs.any holds then
        let plug (input : Input) := { input with block := new.or input.shadow }
        some { block with inputs := Input.modifyFirst holds plug block.inputs }
      else none

/-- Every block that this one owns: inputs, shadows, branches, and the block below. -/
def childIds (block : Block) : List String :=
  block.inputs.flatMap Input.childIds ++ Branch.all.filterMap block.branch ++ block.next.toList

end Block

end BlockGraph
