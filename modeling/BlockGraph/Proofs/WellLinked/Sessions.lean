import BlockGraph.Proofs.Operations
import BlockGraph.Proofs.WellLinked.Listings

/-!
Requests to a session whose targets are well-linked: after each of them the targets are well-linked
again, and a request that is answered with a failure leaves them as they were. Where there is a stage
such a failure is a refusal, never a damage that an edit or a listing ran into. Any other condition on
the blocks that the edits keep is kept by the requests too; where the edits keep it only if blocks are
connected in allowed ways, so do the requests.
-/

set_option autoImplicit false

namespace BlockGraph.Session

open Revision

variable {α : Type} {allowed : Arena → String → String → Placement → Prop}
  {condition : Arena → Prop} {stages : List Bool} {session : Session}
  {request : Request}

/-- What a failed request leaves behind: all but the project is the same. -/
structure Refused (fault : Fault) (next session : Session) : Prop where
  same : next = { session with project := next.project }
  project : Project.Refused fault next.project session.project

/-- Well-linked targets whose blocks satisfy a further condition, with given stages. -/
def Sound (condition : Arena → Prop) (stages : List Bool) (session : Session) : Prop :=
  ∃ editing, session.project.Sound (fun _ => condition) stages editing

theorem Sound.of_refused (sound : session.Sound condition stages)
    (writable : Arena.Writable condition) {fault : Fault} {next : Session}
    (refused : Refused fault next session) : next.Sound condition stages := by
  obtain ⟨editing, whole⟩ := sound
  exact ⟨editing, whole.of_sameTargets (fun _ => writable.uncounted) refused.project.targets
    refused.project.editing⟩

/-- If a request connects blocks of the editing target, then in an allowed way. -/
def Permits (allowed : Arena → String → String → Placement → Prop) (session : Session)
    (request : Request) : Prop :=
  Api.ofName (Text.trim request.api) = .ok .connectBlocks →
    ∀ index editing source target placement,
      session.project.requireEditing = .ok (index, editing) →
      session.connection request.args = .ok (source, target, placement) →
      allowed editing.blocks source target placement

/-- All requests of a run are permitted when their turn comes. -/
def PermitsAll (allowed : Arena → String → String → Placement → Prop) (session : Session) :
    List Request → Prop
  | [] => True
  | request :: rest =>
    session.Permits allowed request ∧ (session.execute request).2.PermitsAll allowed rest

def adding (opcode : String) : Request :=
  ⟨"add_block", .ofMembers [("blockType", .text opcode)]⟩

def connecting (source target : String) (placement : Placement) : Request :=
  ⟨"connect_blocks", .ofMembers
    [("sourceBlockId", .text source), ("targetBlockId", .text target),
      ("placement", .ofMembers
        [("kind", .text placement.kind), ("inputName", .ofText? placement.input?)])]⟩

def declaring (api name scope : String) : Request :=
  ⟨api, .ofMembers [("name", .text name), ("scope", .text scope)]⟩

theorem permits_adding (session : Session) (opcode : String) :
    session.Permits allowed (adding opcode) := by
  intro named
  have isAdd : Api.ofName (Text.trim (adding opcode).api) = .ok .addBlock := by
    show Api.ofName (Text.trim "add_block") = _
    decide +kernel
  rw [isAdd] at named
  cases named

theorem permits_true (session : Session) (request : Request) :
    session.Permits (fun _ _ _ _ => True) request :=
  fun _ _ _ _ _ _ _ _ => trivial

theorem permitsAll_true (session : Session) (requests : List Request) :
    session.PermitsAll (fun _ _ _ _ => True) requests := by
  induction requests generalizing session with
  | nil => trivial
  | cons request rest ih => exact ⟨session.permits_true request, ih _⟩

theorem PermitsAll.mono {weaker : Arena → String → String → Placement → Prop}
    (weaken : ∀ arena source target placement, allowed arena source target placement →
      weaker arena source target placement) {requests : List Request}
    (permits : session.PermitsAll allowed requests) : session.PermitsAll weaker requests := by
  induction requests generalizing session with
  | nil => trivial
  | cons request rest ih =>
    refine ⟨?_, ih permits.2⟩
    intro named index editing source target placement required connects
    exact weaken _ _ _ _ (permits.1 named index editing source target placement required connects)

/-- A change of the project that ends well, or leaves the project alone. -/
abbrev Keeps (condition : Arena → Prop) (stages : List Bool) (change : Revision Project α)
    (session : Session) : Prop :=
  After change session.project
    (fun _ next => ∃ editing, next.Sound (fun _ => condition) stages editing)
    fun fault next => Project.Refused fault next session.project

theorem keeps_of_transacts {change : Revision Project α}
    (transacts : Project.Transacts (fun _ => condition) change)
    (sound : session.Sound condition stages) : Keeps condition stages change session := by
  obtain ⟨editing, whole⟩ := sound
  apply (transacts stages editing session.project whole).mono
  · intro _ _ sound
    exact ⟨editing, sound⟩
  · intro _ _ refused
    exact refused

/-- An edit of the blocks of the editing target. -/
theorem keeps_edit {change : Revision Arena α} (sound : session.Sound condition stages)
    (linked : ∀ arena : Arena, arena.WellLinked →
      After change arena (fun _ next => next.WellLinked)
        fun fault next => next = arena ∧ fault.IsRefusal)
    (keeps : ∀ index target, session.project.requireEditing = .ok (index, target) →
      target.blocks.WellLinked → condition target.blocks →
      After change target.blocks (fun _ => condition) fun _ _ => True) :
    Keeps condition stages (Project.onEditingBlocks change) session := by
  obtain ⟨editing, whole⟩ := sound
  have edits : After (Project.onEditingBlocks change) session.project
      (fun _ next => next.Sound (fun _ => condition) stages editing)
      fun fault next => Project.Refused fault next session.project := by
    apply Project.after_onEditingBlocks whole
    intro index target required
    have found := (Project.requireEditing_eq_ok required).2
    have targetLinked := whole.linked.get found
    have holds := keeps index target required targetLinked (whole.blocks index target found)
    exact ((linked target.blocks targetLinked).and holds).mono (fun _ _ both => both)
      fun _ _ both => both.1
  apply edits.mono
  · intro _ _ sound
    exact ⟨editing, sound⟩
  · intro _ _ refused
    exact refused

/-- An operation keeps what its edits keep, if it is permitted. -/
theorem keeps_change (lasting : Arena.Lasting allowed condition)
    (sound : session.Sound condition stages) (permits : session.Permits allowed request)
    {operation : Operation} (asks : session.Asks request operation) :
    Keeps condition stages (operation.change session.editor) session := by
  cases operation with
  | setField block name value =>
    exact (after_map _ _).mpr (keeps_of_transacts
      (Project.transacts_setField (fun _ => lasting.toWritable) session.editor block name value) sound)
  | addBlock opcode creation =>
    exact (after_map _ _).mpr (keeps_of_transacts
      (Project.transacts_addBlock (fun _ => lasting.toGrowing) session.editor opcode creation) sound)
  | declare kind name scope =>
    exact (after_map _ _).mpr (keeps_of_transacts (Project.transacts_declare kind name scope) sound)
  | connect source target placement =>
    refine (after_map _ _).mpr (keeps_edit sound (fun _ linked =>
      Arena.after_connect linked source target placement) ?_)
    intro index editing required linked holds
    exact lasting.connected linked holds (permits asks.named index editing source target placement
      required (asks.connects source target placement rfl))
  | detach id =>
    exact (after_map _ _).mpr (keeps_edit sound (fun _ linked => Arena.after_detach linked id)
      fun _ _ _ => lasting.detached id)
  | delete id =>
    exact (after_map _ _).mpr (keeps_edit sound (fun _ linked => Arena.after_delete linked id)
      fun _ _ _ => lasting.deleted id)
  | selectSprite name =>
    obtain ⟨editing, whole⟩ := sound
    exact (after_map _ _).mpr (Project.after_selectSprite whole name)
  | selectStage =>
    obtain ⟨editing, whole⟩ := sound
    exact (after_map _ _).mpr (Project.after_selectStage whole)

theorem Answered.sound (lasting : Arena.Lasting allowed condition)
    (sound : session.Sound condition stages) (permits : session.Permits allowed request)
    {payload : Json} {next : Session} (answered : Answered session request payload next) :
    next.Sound condition stages := by
  cases answered with
  | listed => exact sound
  | ran asks changed => exact (after_of_ok changed).mp (keeps_change lasting sound permits asks)

theorem Failed.refused_of_sound (lasting : Arena.Lasting allowed condition)
    (sound : session.Sound condition stages) (permits : session.Permits allowed request)
    {fault : Fault} {next : Session} (failed : Failed session request fault next) :
    Refused fault next session := by
  cases failed with
  | refused refusal => exact ⟨rfl, .refl refusal⟩
  | unlisted unlisted =>
    obtain ⟨editing, whole⟩ := sound
    exact ⟨rfl, .refl (session.project.refuses_listing whole.linked session.editor session.options
      fault unlisted)⟩
  | stopped asks changed =>
    exact ⟨rfl, (after_of_error changed).mp (keeps_change lasting sound permits asks)⟩

/-- The mark of an answer is not replaced by a later member. -/
theorem get?_ok_of_first {mark : Json} {members : List (String × Json)}
    (absent : (Dict.ofList members).get? "ok" = none) :
    (Json.ofMembers (("ok", mark) :: members)).get? "ok" = some mark := by
  rw [Json.get?_ofMembers, Dict.get?_ofList_cons, absent]
  simp

theorem get?_success {payload : Json} (unmarked : Unmarked payload) :
    (Envelope.success payload).get? "ok" = some (.bool true) ∧
      (Envelope.success payload).get? "kind" = none := by
  have marked {members : List (String × Json)}
      (absent : (Dict.ofList members).get? "ok" = none ∧ (Dict.ofList members).get? "kind" = none) :
      (Json.ofMembers (("ok", .bool true) :: members)).get? "ok" = some (.bool true) ∧
        (Json.ofMembers (("ok", .bool true) :: members)).get? "kind" = none := by
    refine ⟨get?_ok_of_first absent.1, ?_⟩
    rw [Json.get?_ofMembers, Dict.get?_ofList_cons, absent.2]
    simp
  have alone : ∀ other : Json, (Dict.ofList [("data", other)]).get? "ok" = none ∧
      (Dict.ofList [("data", other)]).get? "kind" = none := fun _ => ⟨rfl, rfl⟩
  cases payload with
  | object members => exact marked unmarked
  | null => exact marked ⟨rfl, rfl⟩
  | bool value => exact marked (alone _)
  | number value => exact marked (alone _)
  | text value => exact marked (alone _)
  | array items => exact marked (alone _)

theorem get?_failure (report : Report) :
    (Envelope.failure report).get? "ok" = some (.bool false) ∧
      (Envelope.failure report).get? "kind" = some (.text report.kind.code) := by
  constructor
  · apply get?_ok_of_first
    apply Dict.get?_ofList_eq_none
    cases report.details <;> simp
  · rw [Envelope.failure, Json.get?_ofMembers, Dict.get?_ofList_of_nodup]
    · rfl
    · cases report.details <;> simp

/-- A request keeps what its edits keep; when it is answered with a failure, it has left the project
alone. -/
theorem execute_cases (lasting : Arena.Lasting allowed condition)
    (sound : session.Sound condition stages) (permits : session.Permits allowed request) :
    let answer := (session.execute request).1
    let next := (session.execute request).2
    (next.Sound condition stages ∧
        answer.get? "ok" = some (.bool true) ∧ answer.get? "kind" = none) ∨
      ∃ fault, Refused fault next session ∧ answer.get? "ok" = some (.bool false) ∧
        answer.get? "kind" = some (.text fault.kind.code) := by
  rcases session.execute_answers request with
    ⟨payload, next, executed, answered⟩ | ⟨fault, next, executed, failed⟩
  · rw [executed]
    exact .inl ⟨answered.sound lasting sound permits, get?_success answered.unmarked⟩
  · rw [executed]
    exact .inr ⟨fault, failed.refused_of_sound lasting sound permits, get?_failure fault.report⟩

theorem execute_sound (lasting : Arena.Lasting allowed condition)
    (sound : session.Sound condition stages) (permits : session.Permits allowed request) :
    (session.execute request).2.Sound condition stages := by
  rcases execute_cases lasting sound permits with ⟨kept, -⟩ | ⟨fault, refused, -⟩
  · exact kept
  · exact sound.of_refused lasting.toWritable refused

theorem executeAll_sound (lasting : Arena.Lasting allowed condition)
    (sound : session.Sound condition stages) {requests : List Request}
    (permits : session.PermitsAll allowed requests) :
    (session.executeAll requests).2.Sound condition stages := by
  induction requests generalizing session with
  | nil => exact sound
  | cons request rest ih =>
    rw [executeAll_cons]
    exact ih (execute_sound lasting sound permits.1) permits.2

/-- What edits keep holds of the blocks of all targets, whatever was requested. -/
theorem executeAll_keeps (lasting : Arena.Lasting allowed condition)
    (linked : session.project.WellLinked)
    (holds : ∀ target ∈ session.project.targets, condition target.blocks)
    {requests : List Request} (permits : session.PermitsAll allowed requests) :
    ∀ target ∈ (session.executeAll requests).2.project.targets, condition target.blocks := by
  have sound : session.Sound condition (session.project.targets.map Target.isStage) :=
    ⟨session.project.editing, linked,
      fun _ target found => holds target (List.mem_of_getElem? found), rfl, rfl⟩
  obtain ⟨editing, kept⟩ := executeAll_sound lasting sound permits
  intro target member
  obtain ⟨index, found⟩ := List.mem_iff_getElem?.mp member
  exact kept.blocks index target found

theorem sound_of_wellLinked (linked : session.project.WellLinked) :
    session.Sound (fun _ => True) (session.project.targets.map Target.isStage) :=
  ⟨session.project.editing, linked, fun _ _ _ => trivial, rfl, rfl⟩

theorem execute_wellLinked {session : Session} (linked : session.project.WellLinked)
    (request : Request) :
    (session.execute request).2.project.WellLinked ∧
      ((session.execute request).1.get? "ok" = some (.bool false) →
        (session.execute request).2.project.SameTargets session.project) := by
  have sound := sound_of_wellLinked linked
  have permits := session.permits_true request
  obtain ⟨editing, kept⟩ := execute_sound Arena.lasting_true sound permits
  refine ⟨kept.linked, fun failed => ?_⟩
  rcases execute_cases Arena.lasting_true sound permits with ⟨-, succeeded, -⟩ | ⟨fault, refused, -⟩
  · rw [succeeded] at failed
    simp at failed
  · exact refused.project.targets

theorem executeAll_wellLinked {session : Session} (linked : session.project.WellLinked)
    (requests : List Request) : (session.executeAll requests).2.project.WellLinked := by
  obtain ⟨editing, kept⟩ := executeAll_sound Arena.lasting_true (sound_of_wellLinked linked)
    (session.permitsAll_true requests)
  exact kept.linked

/-- Whatever was requested before, one more request keeps the targets well-linked, and leaves them
alone when it is answered with a failure. -/
theorem requests_keep_wellLinked (session : Session)
    (linked : ∀ target ∈ session.project.targets, target.blocks.WellLinked)
    (requests : List Request) (request : Request) :
    let reached := (session.executeAll requests).2
    let answer := (reached.execute request).1
    let next := (reached.execute request).2
    (∀ target ∈ reached.project.targets, target.blocks.WellLinked) ∧
      (∀ target ∈ next.project.targets, target.blocks.WellLinked) ∧
      (answer.get? "ok" = some (.bool false) →
        next.project.targets.map Target.uncounted = reached.project.targets.map Target.uncounted) := by
  have reachedLinked := executeAll_wellLinked linked requests
  have executed := execute_wellLinked reachedLinked request
  exact ⟨reachedLinked, executed.1, executed.2⟩

/-- One sprite without blocks. -/
def oneSprite : Session where
  project := .ofTargets [{ name := "Cat", isStage := false }] ∅

def addMotion : Request :=
  ⟨"add_block", .ofMembers [("blockType", .text "motion_movesteps")]⟩

def writeUnknownField : Request :=
  ⟨"set_block_field", .ofMembers
    [("blockId", .text "block_1"), ("fieldName", .text "SPEED"), ("value", .text "3")]⟩

/-- A block is added, and then a field that it does not have is written. -/
theorem requests_keep_wellLinked_oneSprite :
    (∀ target ∈ oneSprite.project.targets, target.blocks.WellLinked) ∧
      ((oneSprite.executeAll [addMotion]).2.project.targets.map fun target => target.blocks.ids) =
        [["block_1", "shadow_2"]] ∧
      ((oneSprite.executeAll [addMotion]).2.execute writeUnknownField).2.project.targets.map
          Target.uncounted =
        (oneSprite.executeAll [addMotion]).2.project.targets.map Target.uncounted := by
  have linked : ∀ target ∈ oneSprite.project.targets, target.blocks.WellLinked := by
    intro target member
    obtain rfl : target = { name := "Cat", isStage := false } := List.mem_singleton.mp member
    exact Arena.wellLinked_empty
  have failed : ((oneSprite.executeAll [addMotion]).2.execute writeUnknownField).1.get? "ok" =
      some (.bool false) := by decide +kernel
  have kept := requests_keep_wellLinked oneSprite linked [addMotion] writeUnknownField
  refine ⟨linked, by decide +kernel, ?_⟩
  exact kept.2.2 failed

theorem oneSprite_every (empty : condition {}) :
    ∀ target ∈ oneSprite.project.targets, condition target.blocks := by
  intro target member
  obtain rfl : target = { name := "Cat", isStage := false } := List.mem_singleton.mp member
  exact empty

/-- A session with a stage answers with refusals only. -/
theorem execute_refuses (lasting : Arena.Lasting allowed condition)
    (sound : session.Sound condition stages) (staged : true ∈ stages)
    (permits : session.Permits allowed request) :
    (session.execute request).1.get? "kind" ≠ some (.text FaultKind.executionError.code) := by
  have hasStage : session.project.HasStage := by
    obtain ⟨editing, whole⟩ := sound
    rw [← whole.stages] at staged
    exact List.mem_map.mp staged
  rcases execute_cases lasting sound permits with ⟨-, -, unmarked⟩ | ⟨fault, refused, -, marked⟩
  · rw [unmarked]
    simp
  · have refusal := (Fault.isRefusal_iff fault).mp (refused.project.refusal hasStage)
    rw [marked]
    intro same
    exact refusal (FaultKind.code_injective (Json.text.inj (Option.some.inj same)))

theorem executeAll_refuses (lasting : Arena.Lasting allowed condition)
    (sound : session.Sound condition stages) (staged : true ∈ stages) {requests : List Request}
    (permits : session.PermitsAll allowed requests) :
    ∀ answer ∈ (session.executeAll requests).1,
      answer.get? "kind" ≠ some (.text FaultKind.executionError.code) := by
  induction requests generalizing session with
  | nil => simp [executeAll]
  | cons request rest ih =>
    intro answer member
    rw [executeAll_cons] at member
    rcases List.mem_cons.mp member with rfl | later
    · exact execute_refuses lasting sound staged permits.1
    · exact ih (execute_sound lasting sound permits.1) permits.2 answer later

/-- Damages of the block graph are never met: whatever is requested, no answer reports one, and no
listing of the project that is reached runs into one. -/
theorem requests_meet_no_damage (session : Session) (staged : session.project.HasStage)
    (linked : ∀ target ∈ session.project.targets, target.blocks.WellLinked)
    (requests : List Request) :
    let answers := (session.executeAll requests).1
    let reached := (session.executeAll requests).2
    (∀ answer ∈ answers, answer.get? "kind" ≠ some (.text FaultKind.executionError.code)) ∧
      ∀ editor options fault, reached.project.listing editor options = .error fault →
        fault.kind ≠ .executionError := by
  have isStage : true ∈ session.project.targets.map Target.isStage := List.mem_map.mpr staged
  have answered := executeAll_refuses Arena.lasting_true (sound_of_wellLinked linked) isStage
    (session.permitsAll_true requests)
  have reachedLinked := executeAll_wellLinked linked requests
  refine ⟨answered, fun editor options fault failed => ?_⟩
  exact (Fault.isRefusal_iff fault).mp
    (Project.refuses_listing reachedLinked editor options fault failed)

/-- A stage and a sprite, both without blocks. -/
def stageAndSprite : Session where
  project := .ofTargets
    [{ name := "Stage", isStage := true }, { name := "Cat", isStage := false }] ∅

def addBroadcast : Request :=
  ⟨"add_block", .ofMembers [("blockType", .text "event_broadcast")]⟩

/-- A block that broadcasts a message needs a stage, which gets the message; then a field that the
block does not have is written. -/
theorem requests_meet_no_damage_broadcast :
    stageAndSprite.project.HasStage ∧
      (∀ target ∈ stageAndSprite.project.targets, target.blocks.WellLinked) ∧
      ((stageAndSprite.executeAll [addBroadcast, writeUnknownField]).1.map fun answer =>
        answer.get? "ok") = [some (.bool true), some (.bool false)] ∧
      ∀ answer ∈ (stageAndSprite.executeAll [addBroadcast, writeUnknownField]).1,
        answer.get? "kind" ≠ some (.text FaultKind.executionError.code) := by
  have staged : stageAndSprite.project.HasStage :=
    ⟨{ name := "Stage", isStage := true }, List.mem_cons_self, rfl⟩
  have linked : ∀ target ∈ stageAndSprite.project.targets, target.blocks.WellLinked := by
    intro target member
    have empty : target.blocks = {} := by
      rcases List.mem_cons.mp member with rfl | later
      · rfl
      · rw [List.mem_singleton.mp later]
    rw [empty]
    exact Arena.wellLinked_empty
  have answered := requests_meet_no_damage stageAndSprite staged linked
    [addBroadcast, writeUnknownField]
  exact ⟨staged, linked, by decide +kernel, answered.1⟩

end BlockGraph.Session
