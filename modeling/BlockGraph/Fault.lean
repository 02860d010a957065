import BlockGraph.Json.Value

/-!
Why an operation fails. A `Damage` is a link of the block graph that leads nowhere or in a circle; a
`Fault` is any reason to refuse a request. What callers see of a fault is its `Report`: a kind they
can branch on, a message, and for some faults further details.
-/

set_option autoImplicit false

namespace BlockGraph

inductive Damage where
  | missingBlock (id : String)
  | cyclicReference (id : String)
  | cyclicChain (id : String)
  | visitedTwice (id : String)
  | missingInputBlock (input owner child : String)
  | unlinked (id parent : String)
  | noStageForMessage (name : String)
deriving DecidableEq, Repr

def Damage.message : Damage → String
  | .missingBlock id => s!"Missing block '{id}'."
  | .cyclicReference id => s!"Cyclic block reference at '{id}'."
  | .cyclicChain id => s!"Cyclic block chain at '{id}'."
  | .visitedTwice id => s!"Block '{id}' is reachable more than once."
  | .missingInputBlock input owner child =>
    s!"Input '{input}' of block '{owner}' points at missing block '{child}'."
  | .unlinked id parent => s!"Block '{id}' is not linked from its parent '{parent}'."
  | .noStageForMessage name => s!"Project has no stage to hold broadcast '{name}'."

inductive FaultKind where
  | noTarget
  | apiUnavailable
  | invalidArgument
  | invalidState
  | notFound
  | inputNotFound
  | invalidField
  | shadowCreateFailed
  | connectionFailed
  | setFailed
  | executionError
  | unsupported
deriving DecidableEq, Repr

namespace FaultKind

def all : List FaultKind :=
  [.noTarget, .apiUnavailable, .invalidArgument, .invalidState, .notFound, .inputNotFound,
    .invalidField, .shadowCreateFailed, .connectionFailed, .setFailed, .executionError,
    .unsupported]

/-- Name of the kind in answers. -/
def code : FaultKind → String
  | .noTarget => "NO_TARGET"
  | .apiUnavailable => "API_UNAVAILABLE"
  | .invalidArgument => "INVALID_ARG"
  | .invalidState => "INVALID_STATE"
  | .notFound => "NOT_FOUND"
  | .inputNotFound => "INPUT_NOT_FOUND"
  | .invalidField => "INVALID_FIELD"
  | .shadowCreateFailed => "SHADOW_CREATE_FAILED"
  | .connectionFailed => "CONNECTION_FAILED"
  | .setFailed => "SET_FAILED"
  | .executionError => "EXECUTION_ERROR"
  | .unsupported => "UNSUPPORTED"

end FaultKind

/-- What a caller is told about a failure. -/
structure Report where
  kind : FaultKind
  message : String
  details : Option Json
deriving DecidableEq

namespace Report

def display (report : Report) : String :=
  report.kind.code ++ ": " ++ report.message

end Report

/-- The part a block plays in a move. -/
inductive Role where
  | source
  | target
deriving DecidableEq, Repr

def Role.name : Role → String
  | .source => "Source"
  | .target => "Target"

inductive Fault where
  | noEditingTarget
  | editingTargetMissing (index : Nat)
  | noStageForEntity
  | noStageToSelect
  | unsupportedApi (api : String)
  | missingApi
  | required (argument : String)
  | requiredEither (first second : String)
  | notPositive (argument : String)
  | notText (argument : String)
  | badScope
  | inputNameRequired
  | unknownPlacement (kind : String)
  | unknownBlockType (opcode : String)
  | noFieldToBind (opcode field : String)
  | nameTaken (entity name : String)
  | immovableShadow (role : Role) (id : String)
  | insideSource (target source : String)
  | hatBelow (id : String)
  | notStatementInput (input : String)
  | noBranch (id opcode input : String)
  | statementInput (input : String)
  | blocksBelow (id : String)
  | inputOccupied (input id : String)
  | blockNotFound (id : String)
  | roleNotFound (role : Role) (id : String)
  | indexNotFound (index : Nat)
  | spriteNotFound (name : String)
  | inputUnknown (input id : String)
  | inputUnavailable (input id : String) (available : List String)
  | holdsBlock (input id opcode : String)
  | noWritableField (id opcode : String)
  | noShadow (input opcode : String)
  | booleanOnly (input opcode : String)
  | emptyMessageName
  | notInScope (field value : String) (available : List String)
  | notColor (value field : String)
  | noNumbering
  | damaged (damage : Damage)
deriving DecidableEq, Repr

namespace Fault

def kind : Fault → FaultKind
  | .noEditingTarget | .noStageForEntity => .noTarget
  | .editingTargetMissing _ => .apiUnavailable
  | .unsupportedApi _ => .unsupported
  | .missingApi | .required _ | .requiredEither _ _ | .notPositive _ | .notText _ | .badScope
  | .inputNameRequired | .unknownPlacement _ | .unknownBlockType _ | .noFieldToBind _ _
  | .nameTaken _ _ | .immovableShadow _ _ | .insideSource _ _ | .hatBelow _
  | .notStatementInput _ | .noBranch _ _ _ | .statementInput _ | .blocksBelow _
  | .inputOccupied _ _ => .invalidArgument
  | .noNumbering => .invalidState
  | .noStageToSelect | .blockNotFound _ | .roleNotFound _ _ | .indexNotFound _
  | .spriteNotFound _ => .notFound
  | .inputUnknown _ _ | .inputUnavailable _ _ _ => .inputNotFound
  | .holdsBlock _ _ _ | .noWritableField _ _ => .invalidField
  | .noShadow _ _ => .shadowCreateFailed
  | .booleanOnly _ _ => .connectionFailed
  | .emptyMessageName | .notInScope _ _ _ | .notColor _ _ => .setFailed
  | .damaged _ => .executionError

def message : Fault → String
  | .noEditingTarget => "No editing target selected."
  | .editingTargetMissing index => s!"Editing target {index} is not loaded."
  | .noStageForEntity => "Project has no stage."
  | .noStageToSelect => "Project has no stage."
  | .unsupportedApi api => s!"Unsupported api '{api}'."
  | .missingApi => "Missing 'api' field."
  | .required argument => s!"'{argument}' is required."
  | .requiredEither first second => s!"'{first}' or '{second}' is required."
  | .notPositive argument => s!"'{argument}' must be a positive integer."
  | .notText argument => s!"'{argument}' must be a string."
  | .badScope => "'scope' must be 'sprite' or 'all'."
  | .inputNameRequired => "'inputName' is required when kind is 'value_into'."
  | .unknownPlacement kind => s!"Unknown placement kind '{kind}'."
  | .unknownBlockType opcode => s!"Unknown block type '{opcode}'."
  | .noFieldToBind opcode field => s!"Block '{opcode}' has no {field} field to bind."
  | .nameTaken entity name => s!"A {entity} named '{name}' already exists in scope."
  | .immovableShadow role id =>
    role.name ++ s!" block '{id}' is a shadow and cannot be moved."
  | .insideSource target source =>
    s!"Block '{target}' is inside '{source}' and cannot receive it."
  | .hatBelow id => s!"Hat block '{id}' must stay at the top of its script."
  | .notStatementInput input => s!"'{input}' is not a statement input."
  | .noBranch id opcode input => s!"Block '{id}' ({opcode}) has no {input} branch."
  | .statementInput input => s!"'{input}' is a statement input; use statement_into."
  | .blocksBelow id => s!"Block '{id}' has blocks below it and cannot be used as a value."
  | .inputOccupied input id => s!"Input '{input}' of block '{id}' already holds a block."
  | .blockNotFound id => s!"Block '{id}' not found."
  | .roleNotFound role id => role.name ++ s!" block '{id}' not found."
  | .indexNotFound index => s!"Block not found at index {index}."
  | .spriteNotFound name => s!"Sprite '{name}' not found."
  | .inputUnknown input id => s!"Input '{input}' not found on block '{id}'."
  | .inputUnavailable input id available =>
    s!"Input '{input}' not found on block '{id}'. Available inputs: " ++
      ", ".intercalate available
  | .holdsBlock input id opcode => s!"Input '{input}' holds block '{id}' ({opcode}), not a value."
  | .noWritableField id opcode => s!"Shadow '{id}' ({opcode}) has no writable field."
  | .noShadow input opcode => s!"Cannot create a shadow for '{input}' of '{opcode}'."
  | .booleanOnly input opcode => s!"Input '{input}' of '{opcode}' only accepts boolean blocks."
  | .emptyMessageName => "Message name cannot be empty."
  | .notInScope field value _ => "No " ++ field.toLower ++ s!" named '{value}' is in scope."
  | .notColor value field => s!"'{value}' is not a #rrggbb colour for {field}."
  | .noNumbering => "No cached block data. Call get_blocks_pseudocode first."
  | .damaged damage => damage.message

def details : Fault → Option Json
  | .inputUnavailable _ _ available =>
    some (.ofMembers [("availableInputs", .ofTexts available)])
  | .notInScope _ _ available => some (.ofMembers [("available", .ofTexts available)])
  | _ => none

def report (fault : Fault) : Report :=
  ⟨fault.kind, fault.message, fault.details⟩

end Fault

/-- A damage met while answering a request is a fault of its own kind. -/
def Damage.orFault {α : Type} : Except Damage α → Except Fault α
  | .ok value => .ok value
  | .error damage => .error (.damaged damage)

end BlockGraph
