import BlockGraph.Text.Blank

/-!
Literal types: the kinds of value that a slot accepts as plain text. Each has its own block type,
the shadow that holds the text in one field.
-/

set_option autoImplicit false

namespace BlockGraph.Catalog

inductive LiteralType where
  | number
  | positiveNumber
  | wholeNumber
  | integer
  | angle
  | text
  | color
deriving DecidableEq, Repr

namespace LiteralType

def all : List LiteralType :=
  [.number, .positiveNumber, .wholeNumber, .integer, .angle, .text, .color]

/-- Block type of the shadow. -/
def opcode : LiteralType → String
  | .number => "math_number"
  | .positiveNumber => "math_positive_number"
  | .wholeNumber => "math_whole_number"
  | .integer => "math_integer"
  | .angle => "math_angle"
  | .text => "text"
  | .color => "colour_picker"

/-- Field of the shadow that holds the value. -/
def field : LiteralType → String
  | .text => "TEXT"
  | .color => "COLOUR"
  | _ => "NUM"

def ofOpcode? (opcode : String) : Option LiteralType :=
  all.find? fun type => type.opcode = opcode

/-- Names that settle the type of a slot by themselves. -/
def byName : List (String × LiteralType) :=
  [("COLOR", .color), ("COLOR2", .color), ("COLOUR", .color), ("DIRECTION", .angle),
    ("DEGREES", .angle), ("ANGLE", .angle), ("MESSAGE", .text), ("TEXT", .text),
    ("STRING", .text), ("STRING1", .text), ("STRING2", .text), ("QUESTION", .text),
    ("ITEM", .text)]

/-- Parts of a name that suggest a type, the stronger ones first. -/
def byPart : List (String × LiteralType) :=
  [("COLOR", .color), ("COLOUR", .color), ("ANGLE", .angle), ("DIRECTION", .angle),
    ("TEXT", .text), ("MESSAGE", .text), ("STRING", .text)]

def ofName? (name : String) : Option LiteralType :=
  (byName.find? fun entry => entry.1 = name).map Prod.snd

def ofPart? (name : String) : Option LiteralType :=
  (byPart.find? fun entry => Text.occursIn entry.1.toList name.toList).map Prod.snd

/-- Type of a slot guessed from the name of its field, if known, and its own name, in any case of
letters. A full name counts before a part of one, and a number is what remains. -/
def infer (input : String) (field : Option String) : LiteralType :=
  let names := (field.toList ++ [input]).map String.toUpper
  ((names.findSome? ofName?).or (names.findSome? ofPart?)).getD .number

end LiteralType

end BlockGraph.Catalog
