import BlockGraph.Catalog.Menu
import BlockGraph.Json.Value

/-!
The editor that shows a project. It may offer the options of a menu and the place of a block; both
are advice, and a query that fails counts as one without an answer.
-/

set_option autoImplicit false

namespace BlockGraph

structure Position where
  x : Binary64
  y : Binary64
deriving DecidableEq

structure BoundingBox where
  left : Binary64
  top : Binary64
  right : Binary64
  bottom : Binary64
deriving DecidableEq

structure Geometry where
  position : Option Position := none
  boundingBox : Option BoundingBox := none
deriving DecidableEq

structure Editor where
  /-- Options that the menu of a field offers, given the block, the field and its value. -/
  fieldOptions : String → String → String → Except String (Option (List MenuOption))
  geometry : String → Except String (Option Geometry)

namespace Editor

/-- No editor: every query stays without an answer. -/
def headless : Editor where
  fieldOptions _ _ _ := .ok none
  geometry _ := .ok none

/-- Options of a live menu that has any. -/
def liveOptions? (editor : Editor) (block field current : String) : Option (List MenuOption) :=
  match editor.fieldOptions block field current with
  | .ok (some options) => if options.isEmpty then none else some options
  | _ => none

def geometry? (editor : Editor) (block : String) : Option Geometry :=
  match editor.geometry block with
  | .ok answer => answer
  | .error _ => none

end Editor

def Position.toJson (position : Position) : Json :=
  .ofMembers [("x", .ofBinary64 position.x), ("y", .ofBinary64 position.y)]

/-- The edges with the size between them; a size that is too large is left out as `null`. -/
def BoundingBox.toJson (box : BoundingBox) : Json :=
  .ofMembers
    [("left", .ofBinary64 box.left), ("top", .ofBinary64 box.top),
      ("right", .ofBinary64 box.right), ("bottom", .ofBinary64 box.bottom),
      ("width", .ofOption .ofBinary64 (box.right.sub box.left)),
      ("height", .ofOption .ofBinary64 (box.bottom.sub box.top))]

end BlockGraph
