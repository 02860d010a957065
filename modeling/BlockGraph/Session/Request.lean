import BlockGraph.Fault
import BlockGraph.Text.Blank

/-!
Requests: the name of an operation and its arguments.
-/

set_option autoImplicit false

namespace BlockGraph

structure Request where
  api : String
  args : Json
deriving DecidableEq

namespace Request

/-- Reads an object with a name and arguments, or an array of them; what is missing is empty. -/
def ofJson? (value : Json) : Option Request :=
  match value with
  | .object _ => do
    let api ← ((value.get? "api").getD (.text "")).text?
    return ⟨api, (value.get? "args").getD .null⟩
  | .array [] => some ⟨"", .null⟩
  | .array [.text api] => some ⟨api, .null⟩
  | .array [.text api, args] => some ⟨api, args⟩
  | _ => none

/-- An argument that has to be text and not blank. -/
def textArgument (args : Json) (key : String) : Except Fault String :=
  match args.textAt? key with
  | some text => if Text.isBlankText text then .error (.required key) else .ok text
  | none => .error (.required key)

end Request

/-- The operations that requests may name. -/
inductive Api where
  | listBlocks
  | setBlockField
  | addBlock
  | addEntity (list : Bool)
  | connectBlocks
  | detachBlocks
  | deleteBlock
  | selectSprite
  | selectStage
deriving DecidableEq, Repr

namespace Api

def byName : List (String × Api) :=
  [("get_blocks_pseudocode", .listBlocks), ("get_blocks_structure", .listBlocks),
    ("set_block_field", .setBlockField), ("add_block", .addBlock),
    ("add_variable", .addEntity false), ("add_list", .addEntity true),
    ("connect_blocks", .connectBlocks), ("detach_blocks", .detachBlocks),
    ("delete_block", .deleteBlock), ("select_sprite", .selectSprite),
    ("select_stage", .selectStage)]

def ofName (name : String) : Except Fault Api :=
  if name = "" then .error .missingApi
  else
    match byName.find? fun entry => entry.1 = name with
    | some (_, api) => .ok api
    | none => .error (.unsupportedApi name)

end Api

end BlockGraph
