import BlockGraph.Proofs.Choices
import BlockGraph.Proofs.Listing.Rows
import BlockGraph.Proofs.Numbering

/-!
Ids by name. The answer to a listing tells the ids of variables and lists by their names, for requests
that write one of them to a field. Where a target has several entities of one name, the answer tells
the last of them and a write takes the first, so that the two agree only on names that stand for one
entity.
-/

set_option autoImplicit false

namespace BlockGraph

open Revision FieldWrite

namespace EntityKind

/-- The field that names an entity. -/
def field : EntityKind → String
  | .variable => "VARIABLE"
  | .list => "LIST"

/-- The member of an answer with the ids of a sprite. -/
def ownKey : EntityKind → String
  | .variable => "variables"
  | .list => "lists"

/-- The member of an answer with the ids of the stage. -/
def stageKey : EntityKind → String
  | .variable => "stageVariables"
  | .list => "stageLists"

theorem isReferenceField_field (kind : EntityKind) : Catalog.isReferenceField kind.field = true := by
  cases kind <;> rfl

theorem isMessageField_field (kind : EntityKind) (opcode : String) :
    Catalog.isMessageField opcode kind.field = false := by
  cases kind <;> rfl

theorem referents_field (kind : EntityKind) (project : Project) (index : Nat) :
    project.referents index kind.field = project.visible index kind.pick := by
  cases kind <;> rfl

end EntityKind

namespace Project

variable {project : Project} {index : Nat} {target : Target} {kind : EntityKind} {name : String}

/-- The entities that a name stands for in a target: its own, or those of the stage when it has none. -/
def nearest (project : Project) (target : Target) (kind : EntityKind) (name : String) : List Entity :=
  let own := (kind.pick target).filter fun entity => entity.name = name
  if target.isStage || !own.isEmpty then own
  else (project.globals kind.pick).filter fun entity => entity.name = name

/-- The nearest entity of a name is the first one in scope. -/
theorem head?_nearest (found : project.targets[index]? = some target) :
    (project.nearest target kind name).head? =
      (project.visible index kind.pick).find? fun entity => entity.name = name := by
  rw [visible_of_get target found, nearest]
  cases target.isStage with
  | true => simp
  | false =>
    simp only [Bool.false_or, Bool.false_eq_true, if_false, List.find?_append]
    cases own : (kind.pick target).filter fun entity => entity.name = name with
    | nil => simp [← List.head?_filter, own]
    | cons first rest => simp [← List.head?_filter, own]

/-- Entities of one scope, among those that a target sees. -/
theorem filter_inScope (found : project.targets[index]? = some target)
    (pick : Target → List Entity) (scope : Scope) :
    ((project.inScope index pick).filter fun (_, own) => own = scope).map Prod.fst =
      match scope, target.isStage with
      | .sprite, true => []
      | .sprite, false => pick target
      | .stage, true => pick target
      | .stage, false => project.globals pick := by
  have kept (entities : List Entity) (own : Scope) :
      ((entities.map (·, own)).filter fun (_, other) => other = scope).map Prod.fst =
        if own = scope then entities else [] := by
    by_cases same : own = scope <;> simp [List.filter_map, Function.comp_def, same]
  cases isStage : target.isStage with
  | true =>
    simp only [inScope, found, Target.scope, isStage, if_true, kept]
    cases scope <;> rfl
  | false =>
    simp only [inScope, found, Target.scope, isStage, Bool.false_eq_true, if_false, List.filter_append,
      List.map_append, kept]
    cases scope <;> simp [globals]

/-- Entities that one name stands for have their own ids. -/
theorem nodup_nearest (distinct : project.Every Target.Distinct)
    (found : project.targets[index]? = some target) (kind : EntityKind) (name : String) :
    ((project.nearest target kind name).map Entity.id).Nodup := by
  have picked {other : Target} (member : other ∈ project.targets) :
      (((kind.pick other).filter fun entity => entity.name = name).map Entity.id).Nodup := by
    apply List.Nodup.sublist (List.filter_sublist.map Entity.id)
    cases kind
    · exact (distinct other member).vars
    · exact (distinct other member).lists
  rw [nearest]
  split
  · exact picked (List.mem_of_getElem? found)
  · rw [globals]
    cases first : project.stage? with
    | none => exact List.nodup_nil
    | some stage => exact picked (List.mem_of_find?_eq_some first)

end Project

/-- The first and the last of some entities have the same id only where there is one of them. -/
theorem Entity.id_eq_iff_of_nodup {entities : List Entity} (distinct : (entities.map Entity.id).Nodup)
    {first last : Entity} (isFirst : entities.head? = some first)
    (isLast : entities.getLast? = some last) : last.id = first.id ↔ entities.length = 1 := by
  cases entities with
  | nil => cases isFirst
  | cons head rest =>
    cases isFirst
    cases rest with
    | nil =>
      cases isLast
      simp
    | cons second others =>
      rw [List.getLast?_cons_cons] at isLast
      have member : last.id ∈ (second :: others).map Entity.id :=
        List.mem_map_of_mem (List.mem_of_getLast? isLast)
      have apart : last.id ≠ first.id := fun same =>
        (List.nodup_cons.mp distinct).1 (same ▸ member)
      simp [apart]

namespace Answer

variable {project : Project} {index : Nat} {target : Target}

/-- The id that an answer tells for a name: that of the sprite, or else that of the stage. -/
def reportedId? (answer : Json) (kind : EntityKind) (name : String) : Option String :=
  let idIn (key : String) : Option String := do
    let mappings ← answer.get? "valueToIdMappings"
    let ids ← mappings.get? key
    ids.textAt? name
  (idIn kind.ownKey).or (idIn kind.stageKey)

/-- The last entity of a name is the one whose id is told. -/
theorem textAt?_idsByName (entities : List (Entity × Scope)) (scope : Scope) (name : String) :
    (idsByName entities scope).textAt? name =
      (((entities.filter fun (_, own) => own = scope).map Prod.fst).filter fun entity =>
        entity.name = name).getLast?.map Entity.id := by
  rw [idsByName, Json.textAt?, Json.get?_ofMembers, Dict.get?_ofList]
  generalize entities.filter (fun (_, own) => own = scope) = kept
  simp only [List.filter_map, List.getLast?_map, Option.map_map, Function.comp_def]
  cases (kept.filter fun entry => entry.1.name = name).getLast? <;> rfl

/-- A member of the payload is a member of the answer. -/
theorem get?_success_ofMembers (members : List (String × Json)) {key : String} (other : key ≠ "ok") :
    (Envelope.success (.ofMembers members)).get? key = (Dict.ofList members).get? key := by
  have unfolded : Envelope.success (.ofMembers members) =
      .ofMembers (("ok", .bool true) :: (Dict.ofList members).entries) := rfl
  rw [unfolded, Json.get?_ofMembers, Dict.get?_ofList_cons, Dict.ofList_entries, if_neg (Ne.symm other),
    Option.or_none]

theorem get?_mappings (chosen : project.editing = some index) (listing : Listing) (kind : EntityKind) :
    ∃ mappings, (Envelope.success (blocks project listing)).get? "valueToIdMappings" = some mappings ∧
      mappings.get? kind.ownKey = some (idsByName (project.inScope index kind.pick) .sprite) ∧
      mappings.get? kind.stageKey = some (idsByName (project.inScope index kind.pick) .stage) := by
  rw [blocks, get?_success_ofMembers _ (by decide), chosen]
  have last : (Dict.ofList (listing.members ++ contextMembers project index)).get?
      "valueToIdMappings" = (contextMembers project index).getLast?.map Prod.snd := by
    simp [Dict.get?_ofList, Listing.members, contextMembers]
  refine ⟨_, last, ?_, ?_⟩
  · cases kind <;> simp [Dict.get?_ofList, EntityKind.ownKey] <;> rfl
  · cases kind <;> simp [Dict.get?_ofList, EntityKind.stageKey] <;> rfl

/-- What is told for a name is the id of the last of the entities that it stands for. -/
theorem reportedId?_blocks (chosen : project.editing = some index)
    (found : project.targets[index]? = some target) (listing : Listing) (kind : EntityKind)
    (name : String) :
    reportedId? (Envelope.success (blocks project listing)) kind name =
      (project.nearest target kind name).getLast?.map Entity.id := by
  obtain ⟨mappings, given, own, stage⟩ := get?_mappings chosen listing kind
  simp only [reportedId?, given, Option.bind_eq_bind, Option.bind_some, own, stage, textAt?_idsByName,
    Project.filter_inScope found, Project.nearest]
  cases target.isStage with
  | true => simp
  | false =>
    simp only [Bool.false_or]
    cases (kind.pick target).filter fun entity => entity.name = name with
    | nil => simp
    | cons first rest => simp [List.getLast?_cons]

end Answer

namespace Session

variable {session : Session} {project : Project} {index : Nat} {target : Target} {kind : EntityKind}
  {name : String}

/-- Asks for the entity called `name` in a field of a block. -/
def nameRequest (kind : EntityKind) (id name : String) : Request :=
  ⟨"set_block_field", .ofMembers
    [("blockId", .text id), ("fieldName", .text kind.field), ("value", .text name)]⟩

/-- A write that succeeds is answered with what was written. -/
theorem execute_nameRequest {id value : String} {next : Project}
    (wrote : Project.setField session.editor id kind.field name session.project =
      .ok ⟨kind.field, value⟩ next) :
    (session.execute (nameRequest kind id name)).1.get? "value" = some (.text value) ∧
      (session.execute (nameRequest kind id name)).2 = { session with project := next } := by
  have named : Api.ofName (Text.trim "set_block_field") = .ok .setBlockField := by decide +kernel
  have filled : Text.isBlankText kind.field = false := by cases kind <;> decide +kernel
  have ends : After (dispatch (nameRequest kind id name)) session
      (fun payload next' => (∃ members, payload = .ofMembers members ∧
        (Dict.ofList members).get? "value" = some (.text value)) ∧
        next' = { session with project := next }) fun _ _ => False := by
    have isArgument : session.blockArgument (nameRequest kind id name).args "blockId" "blockIndex" =
        .ok id := by
      simp [blockArgument, Json.textAt?, nameRequest, Dict.get?_ofList, Json.text?]
    have isText : Request.textArgument (nameRequest kind id name).args "fieldName" = .ok kind.field := by
      simp [Request.textArgument, Json.textAt?, nameRequest, Dict.get?_ofList, Json.text?, filled]
    have isValue : valueArgument (nameRequest kind id name).args = .ok name := by
      simp [valueArgument, nameRequest, Dict.get?_ofList]
    have isNamed : (nameRequest kind id name).api = "set_block_field" := rfl
    simp only [dispatch, isNamed, named, perform, setBlockField, block, text, after_bind, after_get,
      after_check, isArgument, isText, isValue, Except.ok.injEq, forall_eq', reduceCtorEq,
      false_implies, implies_true, and_true, after_onProject, after_pure, after_of_ok wrote]
    refine ⟨_, rfl, ?_⟩
    simp [Dict.get?_ofList]
  obtain ⟨_, _, ended, ⟨members, rfl, given⟩, rfl⟩ := exists_ok_of_after ends
  rw [execute, ended]
  exact ⟨(Answer.get?_success_ofMembers members (by decide)).trans given, rfl⟩

/-- Without an editor, a name that is written to a field stands for the first of its entities. -/
theorem execute_nearest (headless : session.editor = .headless)
    (required : session.project.requireEditing = .ok (index, target)) {first : Entity}
    (nearest : (session.project.nearest target kind name).head? = some first) {id : String}
    {block : Block} (stored : target.blocks.get? id = some block)
    (isField : block.fields.contains kind.field = true) :
    (session.execute (nameRequest kind id name)).1.get? "value" = some (.text first.id) ∧
      (session.execute (nameRequest kind id name)).2 = { session with
        project := session.project.putBlocks index (target.blocks.modifyBlock id
          (·.withField kind.field (.reference name first.id))) } := by
  have found := (Project.requireEditing_eq_ok required).2
  rw [Project.head?_nearest found] at nearest
  have labelled : first.name = name := by simpa using List.find?_some nearest
  have offered := Project.options?_reference found kind.isReferenceField_field block.opcode
    (((block.fields.get? kind.field).map Field.value).getD "") id
  rw [kind.referents_field] at offered
  have isFirst : (ChoiceContext.entityOptions (session.project.visible index kind.pick)).find?
      (fun option => option.label = name) = some ⟨first.name, first.id⟩ := by
    rw [ChoiceContext.entityOptions, List.find?_map]
    exact congrArg _ nearest
  have known : (⟨session.project, index, .headless⟩ : ChoiceContext).options? block.opcode kind.field
      (((block.fields.get? kind.field).map Field.value).getD "") id =
        some (ChoiceContext.entityOptions (session.project.visible index kind.pick)) := by
    rw [← offered] at isFirst ⊢
    cases options : (⟨session.project, index, .headless⟩ : ChoiceContext).options? block.opcode
      kind.field (((block.fields.get? kind.field).map Field.value).getD "") id with
    | none => simp [options] at isFirst
    | some options => rfl
  have resolves : Resolves target.blocks id kind.field ⟨id, kind.field, none⟩ target.blocks :=
    .own stored isField
  have wrote := Project.setField_of_option required resolves rfl stored known isFirst
    (by simp [kind.isMessageField_field]) fun _ => kind.isReferenceField_field
  rw [MenuOption.field, if_pos kind.isReferenceField_field, labelled] at wrote
  exact execute_nameRequest (headless ▸ wrote)

/-- Without an editor, on a loaded project with any of its targets being edited: for a name in scope,
the answer to a listing tells the id of the last of the entities that the name stands for, and a write
of the name to a field of a block puts the first of them there. The two are the same exactly when the
name stands for one entity. -/
theorem ids_by_name {value : Json} (read : Document.readProject value = .ok project) (session : Session)
    (headless : session.editor = .headless)
    (chosen : session.project = { project with editing := some index })
    (found : project.targets[index]? = some target) (kind : EntityKind)
    (known : ∃ entity ∈ project.visible index kind.pick, entity.name = name) :
    ∃ first last, (project.nearest target kind name).head? = some first ∧
      (project.nearest target kind name).getLast? = some last ∧
      (∀ listing, session.project.listing session.editor session.options = .ok listing → ∀ args,
        Answer.reportedId? (session.execute (listBlocksRequest args)).1 kind name = some last.id) ∧
      (∀ id block, target.blocks.get? id = some block → block.fields.contains kind.field = true →
        (session.execute (nameRequest kind id name)).1.get? "value" = some (.text first.id) ∧
        (session.execute (nameRequest kind id name)).2.project =
          session.project.putBlocks index (target.blocks.modifyBlock id
            (·.withField kind.field (.reference name first.id)))) ∧
      (last.id = first.id ↔ (project.nearest target kind name).length = 1) := by
  have edited : session.project.editing = some index := by rw [chosen]
  have held : session.project.targets[index]? = some target := by rw [chosen]; exact found
  have same : session.project.nearest target kind name = project.nearest target kind name := by
    rw [chosen]
    rfl
  obtain ⟨first, isFirst⟩ : ∃ first, (project.nearest target kind name).head? = some first := by
    rw [Project.head?_nearest found, ← Option.isSome_iff_exists, List.find?_isSome]
    simpa using known
  obtain ⟨last, isLast⟩ : ∃ last, (project.nearest target kind name).getLast? = some last := by
    cases entities : project.nearest target kind name with
    | nil => simp [entities] at isFirst
    | cons head rest => exact ⟨_, List.getLast?_cons⟩
  refine ⟨first, last, isFirst, isLast, ?_, ?_, ?_⟩
  · intro listing listed args
    rw [execute_list_eq listed, Answer.reportedId?_blocks edited held, same, isLast, Option.map_some]
  · intro id block stored isField
    obtain ⟨answered, next⟩ := execute_nearest headless
      (Project.requireEditing_of_get? edited held) (same ▸ isFirst) stored isField
    exact ⟨answered, congrArg Session.project next⟩
  · have storable := Document.storable_readProject read
    exact Entity.id_eq_iff_of_nodup
      (Project.nodup_nearest (fun target member => (storable.targets target member).distinct) found
        kind name) isFirst isLast

/-- A document with a sprite that has two variables, the first of which is called `x`. -/
def countersDocument (second : String) : Json :=
  .ofMembers [("targets", .array [.ofMembers
    [("name", .text "Cat"), ("isStage", .bool false),
      ("variables", .ofMembers
        [("a", .array [.text "x", .ofNat 0]), ("b", .array [.text second, .ofNat 0])]),
      ("blocks", .ofMembers
        [("s", .ofMembers
          [("opcode", .text "data_showvariable"), ("topLevel", .bool true),
            ("fields", .ofMembers [("VARIABLE", .array [.text "x", .text "a"])])])])]])]

def counterBlocks : Arena where
  blocks := .ofList
    [("s", { opcode := "data_showvariable", topLevel := true,
             fields := .ofList [("VARIABLE", .reference "x" "a")] })]
  scripts := ["s"]

def countersSession (second : String) : Session where
  project := .ofTargets [
    { name := "Cat"
      isStage := false
      blocks := counterBlocks
      vars := [⟨"a", "x", .ofNat 0⟩, ⟨"b", second, .ofNat 0⟩]
      rest := .ofList [("name", .text "Cat"), ("isStage", .bool false)] }] ∅
  options := { withIds := false, withChoices := false }

theorem listing_counters (second : String) : ∃ listing,
    (countersSession second).project.listing (countersSession second).editor
      (countersSession second).options = .ok listing := by
  obtain ⟨target, required, blocks⟩ : ∃ target,
      (countersSession second).project.requireEditing = .ok (0, target) ∧
        target.blocks = counterBlocks := ⟨_, rfl, rfl⟩
  have walked : ((Outline.walkWithin target.blocks 3 (target.blocks.scripts.map .script) []).map
      fun entries => (entries.map Outline.plainLine,
        entries.filterMap (Outline.record? Editor.headless))).isSome := by
    rw [blocks]
    decide +kernel
  obtain ⟨printed, walked⟩ := Option.isSome_iff_exists.mp walked
  exact ⟨_, Project.listing_of_walkWithin required 3 printed.1 printed.2 walked⟩

/-- With two variables of different names, the id that is told for `x` is the one that is written. -/
theorem ids_by_name_counters :
    Document.readProject (countersDocument "y") = .ok (countersSession "y").project ∧
      Answer.reportedId? ((countersSession "y").execute (listBlocksRequest .null)).1 .variable "x" =
        some "a" ∧
      ((countersSession "y").execute (nameRequest .variable "s" "x")).1.get? "value" =
        some (.text "a") := by
  have read : Document.readProject (countersDocument "y") = .ok (countersSession "y").project := by
    decide +kernel
  have known : ∃ entity ∈ (countersSession "y").project.visible 0 EntityKind.variable.pick,
      entity.name = "x" := ⟨_, List.mem_cons_self, rfl⟩
  obtain ⟨first, last, isFirst, isLast, reported, written, -⟩ :=
    ids_by_name read (countersSession "y") rfl rfl rfl .variable known
  cases isFirst
  cases isLast
  obtain ⟨listing, listed⟩ := listing_counters "y"
  exact ⟨read, reported listing listed _, (written "s" _ rfl rfl).1⟩

/-- With two variables called `x`, the id that is told is not the one that is written. -/
theorem repeated_name_disagrees :
    Document.readProject (countersDocument "x") = .ok (countersSession "x").project ∧
      Answer.reportedId? ((countersSession "x").execute (listBlocksRequest .null)).1 .variable "x" =
        some "b" ∧
      ((countersSession "x").execute (nameRequest .variable "s" "x")).1.get? "value" =
        some (.text "a") := by
  obtain ⟨listing, listed⟩ := listing_counters "x"
  obtain ⟨target, block, required, first, stored, isField⟩ :
      ∃ target block, (countersSession "x").project.requireEditing = .ok (0, target) ∧
        ((countersSession "x").project.nearest target .variable "x").head? =
          some ⟨"a", "x", .ofNat 0⟩ ∧
        target.blocks.get? "s" = some block ∧
        block.fields.contains EntityKind.variable.field = true :=
    ⟨_, _, rfl, rfl, rfl, rfl⟩
  refine ⟨by decide +kernel, ?_, (execute_nearest rfl required first stored isField).1⟩
  rw [execute_list_eq listed]
  exact (Answer.reportedId?_blocks rfl rfl listing .variable "x").trans rfl

end Session

end BlockGraph
