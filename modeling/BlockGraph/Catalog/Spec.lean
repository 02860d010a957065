import BlockGraph.Branch
import BlockGraph.Catalog.Literal

/-!
Block types. A type in `specs` is program logic and declares its slots; a type in `shadows` only
holds a value inside the slot of another block; any other type is out of scope.
-/

set_option autoImplicit false

namespace BlockGraph.Catalog

/-- What a value slot accepts when no block is plugged in. -/
inductive InputKind where
  | literal (type : LiteralType) (template : String)
  | boolean
  | menu (opcode field template : String)
  /-- The head of a custom block definition. -/
  | prototype
deriving DecidableEq, Repr

structure InputSpec where
  name : String
  kind : InputKind
deriving DecidableEq, Repr

structure BlockSpec where
  opcode : String
  inputs : List InputSpec
  branches : Nat
  /-- Fields of the block itself, with their template values. -/
  fields : List (String × String)
deriving DecidableEq, Repr

def literal (name : String) (type : LiteralType) (template : String) : InputSpec :=
  ⟨name, .literal type template⟩

def number (name template : String) : InputSpec :=
  literal name .number template

def text (name template : String) : InputSpec :=
  literal name .text template

def condition (name : String) : InputSpec :=
  ⟨name, .boolean⟩

def menu (name opcode field template : String) : InputSpec :=
  ⟨name, .menu opcode field template⟩

def motion : List BlockSpec :=
  [⟨"motion_movesteps", [number "STEPS" "10"], 0, []⟩,
    ⟨"motion_turnright", [number "DEGREES" "15"], 0, []⟩,
    ⟨"motion_turnleft", [number "DEGREES" "15"], 0, []⟩,
    ⟨"motion_goto", [menu "TO" "motion_goto_menu" "TO" "_random_"], 0, []⟩,
    ⟨"motion_gotoxy", [number "X" "0", number "Y" "0"], 0, []⟩,
    ⟨"motion_glideto", [number "SECS" "1", menu "TO" "motion_glideto_menu" "TO" "_random_"],
      0, []⟩,
    ⟨"motion_glidesecstoxy", [number "SECS" "1", number "X" "0", number "Y" "0"], 0, []⟩,
    ⟨"motion_pointindirection", [literal "DIRECTION" .angle "90"], 0, []⟩,
    ⟨"motion_pointtowards", [menu "TOWARDS" "motion_pointtowards_menu" "TOWARDS" "_mouse_"],
      0, []⟩,
    ⟨"motion_changexby", [number "DX" "10"], 0, []⟩,
    ⟨"motion_setx", [number "X" "0"], 0, []⟩,
    ⟨"motion_changeyby", [number "DY" "10"], 0, []⟩,
    ⟨"motion_sety", [number "Y" "0"], 0, []⟩,
    ⟨"motion_ifonedgebounce", [], 0, []⟩,
    ⟨"motion_setrotationstyle", [], 0, [("STYLE", "left-right")]⟩,
    ⟨"motion_xposition", [], 0, []⟩,
    ⟨"motion_yposition", [], 0, []⟩,
    ⟨"motion_direction", [], 0, []⟩]

def looks : List BlockSpec :=
  [⟨"looks_sayforsecs", [text "MESSAGE" "Hello!", number "SECS" "2"], 0, []⟩,
    ⟨"looks_say", [text "MESSAGE" "Hello!"], 0, []⟩,
    ⟨"looks_thinkforsecs", [text "MESSAGE" "Hmm...", number "SECS" "2"], 0, []⟩,
    ⟨"looks_think", [text "MESSAGE" "Hmm..."], 0, []⟩,
    ⟨"looks_switchcostumeto", [menu "COSTUME" "looks_costume" "COSTUME" ""], 0, []⟩,
    ⟨"looks_nextcostume", [], 0, []⟩,
    ⟨"looks_switchbackdropto", [menu "BACKDROP" "looks_backdrops" "BACKDROP" ""], 0, []⟩,
    ⟨"looks_switchbackdroptoandwait", [menu "BACKDROP" "looks_backdrops" "BACKDROP" ""], 0, []⟩,
    ⟨"looks_nextbackdrop", [], 0, []⟩,
    ⟨"looks_changesizeby", [number "CHANGE" "10"], 0, []⟩,
    ⟨"looks_setsizeto", [number "SIZE" "100"], 0, []⟩,
    ⟨"looks_changeeffectby", [number "CHANGE" "25"], 0, [("EFFECT", "COLOR")]⟩,
    ⟨"looks_seteffectto", [number "VALUE" "0"], 0, [("EFFECT", "COLOR")]⟩,
    ⟨"looks_cleargraphiceffects", [], 0, []⟩,
    ⟨"looks_show", [], 0, []⟩,
    ⟨"looks_hide", [], 0, []⟩,
    ⟨"looks_gotofrontback", [], 0, [("FRONT_BACK", "front")]⟩,
    ⟨"looks_goforwardbackwardlayers", [literal "NUM" .integer "1"],
      0, [("FORWARD_BACKWARD", "forward")]⟩,
    ⟨"looks_costumenumbername", [], 0, [("NUMBER_NAME", "number")]⟩,
    ⟨"looks_backdropnumbername", [], 0, [("NUMBER_NAME", "number")]⟩,
    ⟨"looks_size", [], 0, []⟩]

def sound : List BlockSpec :=
  [⟨"sound_playuntildone", [menu "SOUND_MENU" "sound_sounds_menu" "SOUND_MENU" ""], 0, []⟩,
    ⟨"sound_play", [menu "SOUND_MENU" "sound_sounds_menu" "SOUND_MENU" ""], 0, []⟩,
    ⟨"sound_stopallsounds", [], 0, []⟩,
    ⟨"sound_changeeffectby", [number "VALUE" "10"], 0, [("EFFECT", "PITCH")]⟩,
    ⟨"sound_seteffectto", [number "VALUE" "100"], 0, [("EFFECT", "PITCH")]⟩,
    ⟨"sound_cleareffects", [], 0, []⟩,
    ⟨"sound_changevolumeby", [number "VOLUME" "-10"], 0, []⟩,
    ⟨"sound_setvolumeto", [number "VOLUME" "100"], 0, []⟩,
    ⟨"sound_volume", [], 0, []⟩]

def events : List BlockSpec :=
  [⟨"event_whenflagclicked", [], 0, []⟩,
    ⟨"event_whenkeypressed", [], 0, [("KEY_OPTION", "space")]⟩,
    ⟨"event_whenthisspriteclicked", [], 0, []⟩,
    ⟨"event_whenstageclicked", [], 0, []⟩,
    ⟨"event_whenbackdropswitchesto", [], 0, [("BACKDROP", "")]⟩,
    ⟨"event_whengreaterthan", [number "VALUE" "10"], 0, [("WHENGREATERTHANMENU", "LOUDNESS")]⟩,
    ⟨"event_whenbroadcastreceived", [], 0, [("BROADCAST_OPTION", "message1")]⟩,
    ⟨"event_broadcast",
      [menu "BROADCAST_INPUT" "event_broadcast_menu" "BROADCAST_OPTION" "message1"],
      0, []⟩,
    ⟨"event_broadcastandwait",
      [menu "BROADCAST_INPUT" "event_broadcast_menu" "BROADCAST_OPTION" "message1"],
      0, []⟩]

def control : List BlockSpec :=
  [⟨"control_wait", [literal "DURATION" .positiveNumber "1"], 0, []⟩,
    ⟨"control_repeat", [literal "TIMES" .wholeNumber "10"], 1, []⟩,
    ⟨"control_forever", [], 1, []⟩,
    ⟨"control_if", [condition "CONDITION"], 1, []⟩,
    ⟨"control_if_else", [condition "CONDITION"], 2, []⟩,
    ⟨"control_wait_until", [condition "CONDITION"], 0, []⟩,
    ⟨"control_repeat_until", [condition "CONDITION"], 1, []⟩,
    ⟨"control_while", [condition "CONDITION"], 1, []⟩,
    ⟨"control_stop", [], 0, [("STOP_OPTION", "all")]⟩,
    ⟨"control_start_as_clone", [], 0, []⟩,
    ⟨"control_create_clone_of",
      [menu "CLONE_OPTION" "control_create_clone_of_menu" "CLONE_OPTION" "_myself_"],
      0, []⟩,
    ⟨"control_delete_this_clone", [], 0, []⟩]

def sensing : List BlockSpec :=
  [⟨"sensing_touchingobject",
      [menu "TOUCHINGOBJECTMENU" "sensing_touchingobjectmenu" "TOUCHINGOBJECTMENU" "_mouse_"],
      0, []⟩,
    ⟨"sensing_touchingcolor", [literal "COLOR" .color "#ff0000"], 0, []⟩,
    ⟨"sensing_coloristouchingcolor",
      [literal "COLOR" .color "#ff0000", literal "COLOR2" .color "#00ff00"],
      0, []⟩,
    ⟨"sensing_distanceto",
      [menu "DISTANCETOMENU" "sensing_distancetomenu" "DISTANCETOMENU" "_mouse_"],
      0, []⟩,
    ⟨"sensing_askandwait", [text "QUESTION" "What's your name?"], 0, []⟩,
    ⟨"sensing_answer", [], 0, []⟩,
    ⟨"sensing_keypressed", [menu "KEY_OPTION" "sensing_keyoptions" "KEY_OPTION" "space"],
      0, []⟩,
    ⟨"sensing_mousedown", [], 0, []⟩,
    ⟨"sensing_mousex", [], 0, []⟩,
    ⟨"sensing_mousey", [], 0, []⟩,
    ⟨"sensing_setdragmode", [], 0, [("DRAG_MODE", "draggable")]⟩,
    ⟨"sensing_loudness", [], 0, []⟩,
    ⟨"sensing_timer", [], 0, []⟩,
    ⟨"sensing_resettimer", [], 0, []⟩,
    ⟨"sensing_of", [menu "OBJECT" "sensing_of_object_menu" "OBJECT" "_stage_"],
      0, [("PROPERTY", "backdrop #")]⟩,
    ⟨"sensing_current", [], 0, [("CURRENTMENU", "YEAR")]⟩,
    ⟨"sensing_dayssince2000", [], 0, []⟩,
    ⟨"sensing_username", [], 0, []⟩]

def operators : List BlockSpec :=
  [⟨"operator_add", [number "NUM1" "", number "NUM2" ""], 0, []⟩,
    ⟨"operator_subtract", [number "NUM1" "", number "NUM2" ""], 0, []⟩,
    ⟨"operator_multiply", [number "NUM1" "", number "NUM2" ""], 0, []⟩,
    ⟨"operator_divide", [number "NUM1" "", number "NUM2" ""], 0, []⟩,
    ⟨"operator_random", [number "FROM" "1", number "TO" "10"], 0, []⟩,
    ⟨"operator_gt", [text "OPERAND1" "", text "OPERAND2" "50"], 0, []⟩,
    ⟨"operator_lt", [text "OPERAND1" "", text "OPERAND2" "50"], 0, []⟩,
    ⟨"operator_equals", [text "OPERAND1" "", text "OPERAND2" "50"], 0, []⟩,
    ⟨"operator_and", [condition "OPERAND1", condition "OPERAND2"], 0, []⟩,
    ⟨"operator_or", [condition "OPERAND1", condition "OPERAND2"], 0, []⟩,
    ⟨"operator_not", [condition "OPERAND"], 0, []⟩,
    ⟨"operator_join", [text "STRING1" "apple ", text "STRING2" "banana"], 0, []⟩,
    ⟨"operator_letter_of", [literal "LETTER" .wholeNumber "1", text "STRING" "apple"], 0, []⟩,
    ⟨"operator_length", [text "STRING" "apple"], 0, []⟩,
    ⟨"operator_contains", [text "STRING1" "apple", text "STRING2" "a"], 0, []⟩,
    ⟨"operator_mod", [number "NUM1" "", number "NUM2" ""], 0, []⟩,
    ⟨"operator_round", [number "NUM" ""], 0, []⟩,
    ⟨"operator_mathop", [number "NUM" ""], 0, [("OPERATOR", "abs")]⟩]

def data : List BlockSpec :=
  [⟨"data_variable", [], 0, [("VARIABLE", "")]⟩,
    ⟨"data_setvariableto", [text "VALUE" "0"], 0, [("VARIABLE", "")]⟩,
    ⟨"data_changevariableby", [number "VALUE" "1"], 0, [("VARIABLE", "")]⟩,
    ⟨"data_showvariable", [], 0, [("VARIABLE", "")]⟩,
    ⟨"data_hidevariable", [], 0, [("VARIABLE", "")]⟩,
    ⟨"data_listcontents", [], 0, [("LIST", "")]⟩,
    ⟨"data_addtolist", [text "ITEM" "thing"], 0, [("LIST", "")]⟩,
    ⟨"data_deleteoflist", [literal "INDEX" .integer "1"], 0, [("LIST", "")]⟩,
    ⟨"data_deletealloflist", [], 0, [("LIST", "")]⟩,
    ⟨"data_insertatlist", [text "ITEM" "thing", literal "INDEX" .integer "1"],
      0, [("LIST", "")]⟩,
    ⟨"data_replaceitemoflist", [literal "INDEX" .integer "1", text "ITEM" "thing"],
      0, [("LIST", "")]⟩,
    ⟨"data_itemoflist", [literal "INDEX" .integer "1"], 0, [("LIST", "")]⟩,
    ⟨"data_itemnumoflist", [text "ITEM" "thing"], 0, [("LIST", "")]⟩,
    ⟨"data_lengthoflist", [], 0, [("LIST", "")]⟩,
    ⟨"data_listcontainsitem", [text "ITEM" "thing"], 0, [("LIST", "")]⟩,
    ⟨"data_showlist", [], 0, [("LIST", "")]⟩,
    ⟨"data_hidelist", [], 0, [("LIST", "")]⟩]

/-- Block types for custom blocks. -/
def procedures : List BlockSpec :=
  [⟨"procedures_definition", [⟨"custom_block", .prototype⟩], 0, []⟩,
    ⟨"procedures_call", [], 0, []⟩,
    ⟨"argument_reporter_string_number", [], 0, [("VALUE", "")]⟩,
    ⟨"argument_reporter_boolean", [], 0, [("VALUE", "")]⟩]

def pen : List BlockSpec :=
  [⟨"pen_clear", [], 0, []⟩,
    ⟨"pen_stamp", [], 0, []⟩,
    ⟨"pen_penDown", [], 0, []⟩,
    ⟨"pen_penUp", [], 0, []⟩,
    ⟨"pen_setPenColorToColor", [literal "COLOR" .color "#0000ff"], 0, []⟩,
    ⟨"pen_changePenColorParamBy",
      [menu "COLOR_PARAM" "pen_menu_colorParam" "colorParam" "color",
        number "VALUE" "10"],
      0, []⟩,
    ⟨"pen_setPenColorParamTo",
      [menu "COLOR_PARAM" "pen_menu_colorParam" "colorParam" "color",
        number "VALUE" "50"],
      0, []⟩,
    ⟨"pen_changePenSizeBy", [number "SIZE" "1"], 0, []⟩,
    ⟨"pen_setPenSizeTo", [number "SIZE" "1"], 0, []⟩]

def specs : List BlockSpec :=
  motion ++ looks ++ sound ++ events ++ control ++ sensing ++ operators ++ data ++ procedures ++ pen

/-- Shadow types with the field that holds their value; a prototype holds none. -/
def shadows : List (String × Option String) :=
  [("math_number", some "NUM"), ("math_positive_number", some "NUM"),
    ("math_whole_number", some "NUM"), ("math_integer", some "NUM"), ("math_angle", some "NUM"),
    ("text", some "TEXT"), ("colour_picker", some "COLOUR"), ("motion_goto_menu", some "TO"),
    ("motion_glideto_menu", some "TO"), ("motion_pointtowards_menu", some "TOWARDS"),
    ("looks_costume", some "COSTUME"), ("looks_backdrops", some "BACKDROP"),
    ("sound_sounds_menu", some "SOUND_MENU"), ("event_broadcast_menu", some "BROADCAST_OPTION"),
    ("control_create_clone_of_menu", some "CLONE_OPTION"),
    ("sensing_touchingobjectmenu", some "TOUCHINGOBJECTMENU"),
    ("sensing_distancetomenu", some "DISTANCETOMENU"), ("sensing_keyoptions", some "KEY_OPTION"),
    ("sensing_of_object_menu", some "OBJECT"), ("pen_menu_colorParam", some "colorParam"),
    ("procedures_prototype", none)]

inductive Kind where
  | structural
  | shadow
  | outOfScope
deriving DecidableEq, Repr

def spec? (opcode : String) : Option BlockSpec :=
  specs.find? fun spec => spec.opcode = opcode

def kind (opcode : String) : Kind :=
  if (spec? opcode).isSome then .structural
  else if shadows.any fun entry => entry.1 = opcode then .shadow
  else .outOfScope

/-- Value slots shown for a block type even when nothing is plugged in. -/
def expectedInputs (opcode : String) : List String :=
  ((spec? opcode).map fun spec => spec.inputs.map InputSpec.name).getD []

/-- Branches shown for a block type even when empty. -/
def expectedBranches (opcode : String) : List Branch :=
  Branch.all.take (((spec? opcode).map BlockSpec.branches).getD 0)

def inputKind? (opcode input : String) : Option InputKind :=
  (spec? opcode).bind fun spec =>
    (spec.inputs.find? fun declared => declared.name = input).map InputSpec.kind

/-- A boolean slot takes blocks only, never a literal. -/
def isBooleanInput (opcode input : String) : Bool :=
  inputKind? opcode input = some .boolean

/-- Field that holds the value of a shadow type. -/
def primaryField? (opcode : String) : Option String :=
  (shadows.find? fun entry => entry.1 = opcode).bind Prod.snd

/-- Hats start a script and never stand below another block. -/
def isHat (opcode : String) : Bool :=
  "event_when".toList.isPrefixOf opcode.toList || opcode = "control_start_as_clone" ||
    opcode = "procedures_definition"

/-- Fields whose value names an entity of the project and is stored with its id. -/
def isReferenceField (field : String) : Bool :=
  field = "VARIABLE" || field = "LIST" || field = "BROADCAST_OPTION"

/-- Fields whose value is a message, found or created by its name. -/
def isMessageField (opcode field : String) : Bool :=
  field = "BROADCAST_OPTION" &&
    (opcode = "event_broadcast_menu" || opcode = "event_whenbroadcastreceived")

end BlockGraph.Catalog
