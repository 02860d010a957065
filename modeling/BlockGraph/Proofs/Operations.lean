import BlockGraph.Proofs.Dict
import BlockGraph.Proofs.Project
import BlockGraph.Proofs.Refusals

/-!
Requests and operations. A request reads its arguments, which changes nothing, and then lists the
editing target or runs one operation on the project of the session; the name of the request says
which one. `execute_answers` says once all that a request can come to, so that what requests keep need
only be shown for operations and listings.
-/

set_option autoImplicit false

namespace BlockGraph

open Revision

/-- What a request asks of the project, with its arguments. -/
inductive Operation where
  | setField (block name value : String)
  | addBlock (opcode : String) (creation : Json)
  | declare (kind : EntityKind) (name : String) (scope : Scope)
  | connect (source target : String) (placement : Placement)
  | detach (id : String)
  | delete (id : String)
  | selectSprite (name : String)
  | selectStage

namespace Operation

def api : Operation → Api
  | .setField .. => .setBlockField
  | .addBlock .. => .addBlock
  | .declare kind .. => .addEntity (kind = .list)
  | .connect .. => .connectBlocks
  | .detach _ => .detachBlocks
  | .delete _ => .deleteBlock
  | .selectSprite _ => .selectSprite
  | .selectStage => .selectStage

/-- The change that an operation makes, without the value that it reports. -/
def change (editor : Editor) : Operation → Revision Project Unit
  | .setField block name value => (fun _ => ()) <$> Project.setField editor block name value
  | .addBlock opcode creation => (fun _ => ()) <$> Project.addBlock editor opcode creation
  | .declare kind name scope => (fun _ => ()) <$> Project.declare kind name scope
  | .connect source target placement =>
    (fun _ => ()) <$> Project.connectBlocks source target placement
  | .detach id => (fun _ => ()) <$> Project.detachBlocks id
  | .delete id => (fun _ => ()) <$> Project.deleteBlock id
  | .selectSprite name => (fun _ => ()) <$> Project.selectSprite name
  | .selectStage => (fun _ => ()) <$> Project.selectStage

/-- Operations after which a block may have another number. -/
def renumbers : Operation → Bool
  | .setField .. | .declare .. => false
  | _ => true

end Operation

namespace Session

variable {α β : Type} {session : Session} {request : Request}

/-- The blocks and the placement that a request to connect blocks asks for. -/
def connection (session : Session) (args : Json) : Except Fault (String × String × Placement) := do
  let source ← session.blockArgument args "sourceBlockId" "sourceBlockIndex"
  let target ← session.blockArgument args "targetBlockId" "targetBlockIndex"
  let placement ← Placement.ofJson (argumentOrNull args "placement")
  return (source, target, placement)

/-- The request names the operation. Of its arguments only those of a connection are told. -/
structure Asks (session : Session) (request : Request) (operation : Operation) : Prop where
  named : Api.ofName (Text.trim request.api) = .ok operation.api
  connects : ∀ source target placement, operation = .connect source target placement →
    session.connection request.args = .ok (source, target, placement)

/-- Only a connection has to tell its arguments. -/
theorem asks_of_named {operation : Operation}
    (named : Api.ofName (Text.trim request.api) = .ok operation.api)
    (other : operation.api ≠ .connectBlocks) : session.Asks request operation := by
  refine ⟨named, ?_⟩
  rintro source target placement rfl
  exact absurd rfl other

/-- The members that tell answers apart are missing. -/
def Unmarked (payload : Json) : Prop :=
  payload.get? "ok" = none ∧ payload.get? "kind" = none

theorem unmarked_ofMembers {members : List (String × Json)}
    (absent : "ok" ∉ members.map Prod.fst ∧ "kind" ∉ members.map Prod.fst) :
    Unmarked (Json.ofMembers members) := by
  simp only [Unmarked, Json.get?_ofMembers]
  exact ⟨Dict.get?_ofList_eq_none absent.1, Dict.get?_ofList_eq_none absent.2⟩

theorem unmarked_blocks (project : Project) (listing : Listing) :
    Unmarked (Answer.blocks project listing) := by
  apply unmarked_ofMembers
  cases project.editing with
  | none => simp [Listing.members]
  | some index => simp [Listing.members, Answer.contextMembers]

/-- What a request that succeeds has done. -/
inductive Answered (session : Session) (request : Request) : Json → Session → Prop
  | listed {listing : Listing} :
      session.project.listing session.editor session.options = .ok listing →
      Answered session request (Answer.blocks session.project listing)
        { session with numbering := some listing.numbering }
  | ran {operation : Operation} {payload : Json} {project : Project} :
      session.Asks request operation →
      operation.change session.editor session.project = .ok () project → Unmarked payload →
      Answered session request payload
        { session with
          project := project
          numbering := if operation.renumbers then none else session.numbering }

/-- What a request that fails has done. -/
inductive Failed (session : Session) (request : Request) : Fault → Session → Prop
  | refused {fault : Fault} : fault.IsRefusal → Failed session request fault session
  | unlisted {fault : Fault} :
      session.project.listing session.editor session.options = .error fault →
      Failed session request fault session
  | stopped {operation : Operation} {fault : Fault} {project : Project} :
      session.Asks request operation →
      operation.change session.editor session.project = .error fault project →
      Failed session request fault { session with project := project }

theorem Answered.unmarked {payload : Json} {next : Session}
    (answered : Answered session request payload next) : Unmarked payload := by
  cases answered with
  | listed => exact unmarked_blocks _ _
  | ran _ _ unmarked => exact unmarked

/-- A revision that ends like the request. -/
abbrev Answers (session : Session) (request : Request) (revision : Revision Session Json) : Prop :=
  After revision session (Answered session request) (Failed session request)

theorem answers_check {outcome : Except Fault β} (refuses : Refuses outcome)
    {later : β → Revision Session Json}
    (answers : ∀ value, outcome = .ok value → session.Answers request (later value)) :
    session.Answers request (check outcome >>= later) := by
  rw [Answers, after_bind, after_check]
  exact ⟨answers, fun fault failed => .refused (refuses fault failed)⟩

theorem answers_block (args : Json) (idKey indexKey : String)
    {later : String → Revision Session Json}
    (answers : ∀ id, session.blockArgument args idKey indexKey = .ok id →
      session.Answers request (later id)) :
    session.Answers request (block args idKey indexKey >>= later) := by
  rw [Answers, block, bind_assoc, after_bind, after_get]
  exact answers_check (refuses_blockArgument session args idKey indexKey) answers

/-- After its operation a request reports, and forgets the numbers that do not hold any longer. -/
theorem answers_onProject (operation : Operation) (asks : session.Asks request operation)
    {change : Revision Project α} (same : operation.change session.editor = (fun _ => ()) <$> change)
    {report : α → Revision Session Json}
    (reports : ∀ value next, ∃ payload, Unmarked payload ∧ report value next = .ok payload
      { next with numbering := if operation.renumbers then none else next.numbering }) :
    session.Answers request (onProject change >>= report) := by
  rw [Answers, after_bind, after_onProject]
  cases ran : change session.project with
  | ok value project =>
    obtain ⟨payload, unmarked, reported⟩ := reports value { session with project := project }
    rw [after_of_ok ran, after_of_ok reported]
    refine .ran asks ?_ unmarked
    rw [same, map_of_ok ran]
  | error fault project =>
    rw [after_of_error ran]
    refine .stopped asks ?_
    rw [same, map_of_error ran]

theorem answers_perform {api : Api} (named : Api.ofName (Text.trim request.api) = .ok api) :
    session.Answers request (perform request.args api) := by
  cases api with
  | listBlocks =>
    simp only [Answers, perform, listBlocks, list, after_bind, after_get, after_check, after_set,
      after_pure]
    exact ⟨fun _ => .listed, fun _ => .unlisted⟩
  | setBlockField =>
    apply answers_block
    intro id _
    apply answers_check (refuses_textArgument request.args "fieldName")
    intro name _
    apply answers_check (refuses_valueArgument request.args)
    intro value _
    rw [Answers, after_bind, after_get]
    apply answers_onProject (.setField id name value) (asks_of_named named (by simp [Operation.api])) rfl
    exact fun update next => ⟨_, unmarked_ofMembers (by simp), rfl⟩
  | addBlock =>
    apply answers_check (refuses_textArgument request.args "blockType")
    intro opcode _
    rw [Answers, after_bind, after_get]
    apply answers_onProject (.addBlock opcode _) (asks_of_named named (by simp [Operation.api])) rfl
    exact fun id next => ⟨_, unmarked_ofMembers (by simp), rfl⟩
  | addEntity isList =>
    apply answers_check (refuses_textArgument request.args "name")
    intro name _
    apply answers_check (refuses_textArgument request.args "scope")
    intro text _
    apply answers_check (refuses_parseScope (Text.trim text))
    intro scope _
    apply answers_onProject (.declare _ name scope) (asks_of_named ?_ (by simp [Operation.api])) rfl
    · exact fun declared next => ⟨_, unmarked_ofMembers (by simp), rfl⟩
    · rw [named, Operation.api]
      cases isList <;> rfl
  | connectBlocks =>
    apply answers_block
    intro source sourceNamed
    apply answers_block
    intro target targetNamed
    apply answers_check (refuses_placementOfJson (argumentOrNull request.args "placement"))
    intro placement placementNamed
    have connects : session.connection request.args = .ok (source, target, placement) := by
      simp only [connection, sourceNamed, targetNamed, placementNamed, bind, Except.bind]
      rfl
    apply answers_onProject (.connect source target placement) ⟨named, ?_⟩ rfl
    · exact fun _ next => ⟨_, unmarked_ofMembers (by simp), rfl⟩
    · rintro _ _ _ ⟨⟩
      exact connects
  | detachBlocks =>
    apply answers_block
    intro id _
    apply answers_onProject (.detach id) (asks_of_named named (by simp [Operation.api])) rfl
    exact fun parent next => ⟨_, unmarked_ofMembers (by simp), rfl⟩
  | deleteBlock =>
    apply answers_block
    intro id _
    apply answers_onProject (.delete id) (asks_of_named named (by simp [Operation.api])) rfl
    exact fun deletion next => ⟨_, unmarked_ofMembers (by simp), rfl⟩
  | selectSprite =>
    apply answers_check (refuses_textArgument request.args "name")
    intro name _
    apply answers_onProject (.selectSprite _) (asks_of_named named (by simp [Operation.api])) rfl
    exact fun name next => ⟨_, unmarked_ofMembers (by simp), rfl⟩
  | selectStage =>
    apply answers_onProject .selectStage (asks_of_named named (by simp [Operation.api])) rfl
    exact fun name next => ⟨_, unmarked_ofMembers (by simp), rfl⟩

/-- All that a request can come to. -/
theorem execute_answers (session : Session) (request : Request) :
    (∃ payload next, session.execute request = (Envelope.success payload, next) ∧
      Answered session request payload next) ∨
    ∃ fault next, session.execute request = (Envelope.failure fault.report, next) ∧
      Failed session request fault next := by
  have answers : session.Answers request (dispatch request) :=
    answers_check (refuses_apiOfName (Text.trim request.api)) fun _ named => answers_perform named
  rw [execute]
  cases ended : dispatch request session with
  | ok payload next => exact .inl ⟨payload, next, rfl, (after_of_ok ended).mp answers⟩
  | error fault next => exact .inr ⟨fault, next, rfl, (after_of_error ended).mp answers⟩

/-- A request runs one operation of the kind that it names, or leaves the project as it is. -/
theorem execute_ran (session : Session) (request : Request) :
    (session.execute request).2.project = session.project ∨
      ∃ operation : Operation, Api.ofName (Text.trim request.api) = .ok operation.api ∧
        (session.execute request).2.project =
          (operation.change session.editor).final session.project := by
  rcases session.execute_answers request with ⟨_, _, executed, answered⟩ | ⟨_, _, executed, failed⟩
  · rw [executed]
    cases answered with
    | listed => exact .inl rfl
    | ran asks changed => exact .inr ⟨_, asks.named, (final_of_ok changed).symm⟩
  · rw [executed]
    cases failed with
    | refused => exact .inl rfl
    | unlisted => exact .inl rfl
    | stopped asks changed => exact .inr ⟨_, asks.named, (final_of_error changed).symm⟩

end Session

end BlockGraph
