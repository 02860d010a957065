/-!
Menus whose entries do not depend on the project. An entry has a label, which is shown, and a code,
which is stored.
-/

set_option autoImplicit false

namespace BlockGraph

structure MenuOption where
  label : String
  code : String
deriving DecidableEq, Repr

/-- Options stored as they are shown. -/
def sameOptions (names : List String) : List MenuOption :=
  names.map fun name => ⟨name, name⟩

namespace Catalog

def keyNames : List String :=
  ["space", "up arrow", "down arrow", "right arrow", "left arrow", "any", "a", "b", "c", "d", "e",
    "f", "g", "h", "i", "j", "k", "l", "m", "n", "o", "p", "q", "r", "s", "t", "u", "v", "w", "x",
    "y", "z", "0", "1", "2", "3", "4", "5", "6", "7", "8", "9"]

def timeUnits : List MenuOption :=
  [⟨"year", "YEAR"⟩, ⟨"month", "MONTH"⟩, ⟨"date", "DATE"⟩, ⟨"day of week", "DAYOFWEEK"⟩,
    ⟨"hour", "HOUR"⟩, ⟨"minute", "MINUTE"⟩, ⟨"second", "SECOND"⟩]

def graphicEffects : List MenuOption :=
  [⟨"color", "COLOR"⟩, ⟨"fisheye", "FISHEYE"⟩, ⟨"whirl", "WHIRL"⟩, ⟨"pixelate", "PIXELATE"⟩,
    ⟨"mosaic", "MOSAIC"⟩, ⟨"brightness", "BRIGHTNESS"⟩, ⟨"ghost", "GHOST"⟩]

def soundEffects : List MenuOption :=
  [⟨"pitch", "PITCH"⟩, ⟨"pan left/right", "PAN"⟩]

def mathFunctions : List String :=
  ["abs", "floor", "ceiling", "sqrt", "sin", "cos", "tan", "asin", "acos", "atan", "ln", "log",
    "e ^", "10 ^"]

/-- A menu of one field, either of one block type or of all that have the field. -/
structure FixedMenu where
  field : String
  opcode : Option String
  options : List MenuOption

/-- Menus that are the same in every project. -/
def fixedMenus : List FixedMenu :=
  [⟨"KEY_OPTION", none, sameOptions keyNames⟩,
    ⟨"CURRENTMENU", some "sensing_current", timeUnits⟩,
    ⟨"STOP_OPTION", some "control_stop",
      sameOptions ["all", "this script", "other scripts in sprite"]⟩,
    ⟨"EFFECT", some "looks_changeeffectby", graphicEffects⟩,
    ⟨"EFFECT", some "looks_seteffectto", graphicEffects⟩,
    ⟨"EFFECT", some "sound_changeeffectby", soundEffects⟩,
    ⟨"EFFECT", some "sound_seteffectto", soundEffects⟩,
    ⟨"STYLE", some "motion_setrotationstyle",
      sameOptions ["left-right", "don't rotate", "all around"]⟩,
    ⟨"FRONT_BACK", some "looks_gotofrontback", sameOptions ["front", "back"]⟩,
    ⟨"FORWARD_BACKWARD", some "looks_goforwardbackwardlayers",
      sameOptions ["forward", "backward"]⟩,
    ⟨"NUMBER_NAME", none, sameOptions ["number", "name"]⟩,
    ⟨"DRAG_MODE", some "sensing_setdragmode", sameOptions ["draggable", "not draggable"]⟩,
    ⟨"WHENGREATERTHANMENU", some "event_whengreaterthan",
      [⟨"loudness", "LOUDNESS"⟩, ⟨"timer", "TIMER"⟩]⟩,
    ⟨"colorParam", some "pen_menu_colorParam",
      sameOptions ["color", "saturation", "brightness", "transparency"]⟩,
    ⟨"OPERATOR", some "operator_mathop", sameOptions mathFunctions⟩]

def fixedMenu? (opcode field : String) : Option (List MenuOption) :=
  (fixedMenus.find? fun menu =>
    menu.field = field && menu.opcode.all fun owner => owner = opcode).map FixedMenu.options

/-- Menus of sprites, each with the entries that stand before the sprites. -/
def spriteMenus : List (String × List MenuOption) :=
  [("TO", [⟨"random position", "_random_"⟩, ⟨"mouse-pointer", "_mouse_"⟩]),
    ("TOWARDS", [⟨"mouse-pointer", "_mouse_"⟩]),
    ("DISTANCETOMENU", [⟨"mouse-pointer", "_mouse_"⟩]),
    ("TOUCHINGOBJECTMENU", [⟨"mouse-pointer", "_mouse_"⟩, ⟨"edge", "_edge_"⟩]),
    ("CLONE_OPTION", [⟨"myself", "_myself_"⟩]),
    ("OBJECT", [⟨"Stage", "_stage_"⟩])]

def spriteMenu? (field : String) : Option (List MenuOption) :=
  (spriteMenus.find? fun menu => menu.1 = field).map Prod.snd

/-- Entries before the sprites; none for a field that is not a menu of sprites. -/
def specialTargets (field : String) : List MenuOption :=
  (spriteMenu? field).getD []

def stageProperties : List String :=
  ["backdrop #", "backdrop name", "volume"]

def spriteProperties : List String :=
  ["x position", "y position", "direction", "costume #", "costume name", "size", "volume"]

end Catalog

end BlockGraph
