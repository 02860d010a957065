import BlockGraph.Catalog.Menu
import BlockGraph.Edit.Declaration
import BlockGraph.Edit.FieldWrite
import BlockGraph.Edit.Splice
import BlockGraph.Outline.Listing

/-!
Payloads of answers.
-/

set_option autoImplicit false

namespace BlockGraph.Answer

def connected (source target : String) (placement : Placement) : Json :=
  .ofMembers [("sourceId", .text source), ("targetId", .text target),
    ("placement", .text placement.kind)]

def detached (id : String) (previousParent : Option String) : Json :=
  .ofMembers [("blockId", .text id), ("detached", .bool previousParent.isSome),
    ("previousParent", .ofText? previousParent)]

def deleted (id : String) (deletion : Deletion) : Json :=
  .ofMembers [("blockId", .text id), ("opcode", .text deletion.opcode),
    ("topLevel", .bool deletion.topLevel), ("removed", .ofTexts deletion.removed)]

/-- A new block is connected to nothing. -/
def added (id : String) : Json :=
  .ofMembers [("blockId", .text id), ("connected", .bool false)]

def fieldUpdate (update : FieldUpdate) : Json :=
  .ofMembers [("updated", .ofNat 1), ("fieldName", .text update.field),
    ("value", .text update.value)]

/-- Names in scope with where they come from. -/
def scopedNames (entities : List (Entity × Scope)) : Json :=
  .array (entities.map fun (entity, scope) =>
    .ofMembers [("name", .text entity.name), ("scope", .text scope.name)])

/-- Ids by name of the entities of one scope. -/
def idsByName (entities : List (Entity × Scope)) (scope : Scope) : Json :=
  .ofMembers ((entities.filter fun (_, own) => own = scope).map fun (entity, _) =>
    (entity.name, .text entity.id))

def sameNames (names : List String) : Json :=
  .ofMembers (names.map fun name => (name, .text name))

/-- Menu entries with a code that no entity of the project has. -/
def specialOptions : List MenuOption :=
  ["TO", "TOUCHINGOBJECTMENU", "CLONE_OPTION", "OBJECT"].flatMap Catalog.specialTargets ++
    Catalog.timeUnits

/-- Names and ids that a caller needs to phrase edits of a target. -/
def contextMembers (project : Project) (index : Nat) : List (String × Json) :=
  let vars := project.variablesInScope index
  let lists := project.listsInScope index
  let sounds := (project.targets[index]?.map Target.sounds).getD []
  let mappings : List (String × Json) :=
    [("variables", idsByName vars .sprite), ("stageVariables", idsByName vars .stage),
      ("lists", idsByName lists .sprite), ("stageLists", idsByName lists .stage),
      ("sounds", sameNames sounds), ("sprites", sameNames project.spriteNames),
      ("specialOptions",
        .ofMembers (specialOptions.map fun option => (option.label, .text option.code)))]
  [("availableTargets", .ofTexts project.spriteNames),
    ("targetVariables", scopedNames vars), ("targetLists", scopedNames lists),
    ("valueToIdMappings", .ofMembers mappings)]

/-- A listing with the context of the editing target. -/
def blocks (project : Project) (listing : Listing) : Json :=
  let context := (project.editing.map (contextMembers project)).getD []
  .ofMembers (listing.members ++ context)

end BlockGraph.Answer
