import BlockGraph.Proofs.Reading
import BlockGraph.Proofs.WellLinked.Projects

/-!
Field writes that fail, on blocks whose links need not be in order. A write that fails takes back the
shadow it has plugged in, unless the input named that shadow before. This is how an owned shadow is
told from a new one, and the two are confused in one case: an input that holds no block and names a
shadow that is missing, under the very id that is generated next. There the new shadow stays.
-/

set_option autoImplicit false

namespace BlockGraph

open Revision

namespace FieldWrite

open Arena

variable {arena next : Arena} {id name shadow : String} {block : Block}

/-- The input holds no block and names the shadow that a write to it is going to generate. -/
def Foretold (arena : Arena) (id name : String) : Prop :=
  ∃ block input template, arena.get? id = some block ∧ block.fields.contains name = false ∧
    block.input? name = some input ∧ input.block = none ∧
    input.shadow = some (arena.freshId "shadow").1 ∧ shadowTemplate block.opcode name = .ok template

/-- Blocks after a write that failed: as they were, except for a foretold shadow. -/
def Left (arena : Arena) (id name : String) (next : Arena) : Prop :=
  (¬Foretold arena id name → next.uncounted = arena.uncounted) ∧
    (Foretold arena id name → ∃ opcode field value, next.uncounted =
      (arena.insert (arena.freshId "shadow").1 (.newShadow id opcode field value)).uncounted)

theorem Left.unchanged (known : ¬Foretold arena id name) (same : next.uncounted = arena.uncounted) :
    Left arena id name next :=
  ⟨fun _ => same, fun foretold => absurd foretold known⟩

/-- The blocks with what was plugged in taken back. -/
def takeBack (arena : Arena) (plug : Option Plug) : Arena :=
  plug.elim arena (unplug arena)

/-- A slot that has been made ready for a write, and what is left of it if the write fails. -/
structure Ready (arena : Arena) (id name : String) (slot : Slot) (next : Arena) : Prop where
  found : ∃ block, next.get? slot.block = some block
  left : Left arena id name (takeBack next slot.plug)

/-- The new shadow is told from an owned one by its id, so a foretold one stays. -/
theorem left_unplug (tidy : arena.Tidy) (found : arena.get? id = some block) {isNew : Bool}
    {previous : Input} (was : Previous block isNew previous) {template : String × String × String}
    (made : shadowTemplate block.opcode previous.name = .ok template)
    (foretold : Foretold arena id previous.name ↔
      previous.shadow = some (arena.freshId "shadow").1 ∧
        ∃ template, shadowTemplate block.opcode previous.name = .ok template)
    {opcode field value : String} {middle : Arena} {changed : Block} {change : Input → Input}
    (keeps : ∀ input, (change input).name = input.name)
    (from' : changed = block ∨ changed = block.withInput previous.name change)
    (lookups : ∀ other, middle.get? other = if other = id then some changed
      else if other = (arena.freshId "shadow").1 then some (.newShadow id opcode field value)
      else arena.get? other)
    (scripts : middle.scripts = arena.scripts) :
    Left arena id previous.name
      (unplug middle ⟨id, (arena.freshId "shadow").1, isNew, previous⟩) := by
  have fresh := arena.get?_freshId "shadow"
  have unlisted := tidy.not_mem_scripts fresh
  have back := unplug_newShadow found was fresh unlisted rfl keeps from' lookups scripts
  by_cases named : previous.shadow = some (arena.freshId "shadow").1
  · rw [if_pos named] at back
    exact ⟨fun unknown => absurd (foretold.mpr ⟨named, template, made⟩) unknown,
      fun _ => ⟨opcode, field, value, back⟩⟩
  · rw [if_neg named] at back
    exact .unchanged (fun known => named (foretold.mp known).1) back

theorem ready_plugNew (tidy : arena.Tidy) (found : arena.get? id = some block) {isNew : Bool}
    {previous : Input} (was : Previous block isNew previous)
    (foretold : Foretold arena id previous.name ↔
      previous.shadow = some (arena.freshId "shadow").1 ∧
        ∃ template, shadowTemplate block.opcode previous.name = .ok template) :
    After (plugNew id block.opcode isNew previous) arena (Ready arena id previous.name)
      fun _ => Left arena id previous.name := by
  rw [plugNew, after_bind, after_check]
  refine ⟨?_, fun fault failed => ?_⟩
  · rintro ⟨opcode, field, template⟩ made
    let leaf := Block.newShadow id opcode field template
    have fresh : (arena.freshId "shadow").2.get? (arena.freshId "shadow").1 = none :=
      arena.get?_freshId "shadow"
    have lookups : ∀ other,
        ((arena.freshId "shadow").2.insert (arena.freshId "shadow").1 leaf).get? other =
          if other = id then some block else if other = (arena.freshId "shadow").1 then some leaf
          else arena.get? other :=
      get?_insert_newShadow found fresh leaf
    have scripts : ((arena.freshId "shadow").2.insert (arena.freshId "shadow").1 leaf).scripts =
        arena.scripts :=
      scripts_insert_below _ _ rfl
    let plug : Input → Input :=
      ({ · with block := some (arena.freshId "shadow").1, shadow := some (arena.freshId "shadow").1 })
    have plugged : ∀ other,
        (((arena.freshId "shadow").2.insert (arena.freshId "shadow").1 leaf).modifyBlock id
          (·.withInput previous.name plug)).get? other =
          if other = id then some (block.withInput previous.name plug)
          else if other = (arena.freshId "shadow").1 then some leaf else arena.get? other := by
      intro other
      rw [get?_modifyBlock, lookups]
      by_cases isOwner : other = id <;> simp [isOwner]
    rw [after_bind, after_newId, after_bind, after_modify]
    simp only
    split
    · have keeps : ∀ input : Input, ((fun same => same) input : Input).name = input.name :=
        fun _ => rfl
      exact left_unplug tidy found was made foretold keeps (.inl rfl) lookups scripts
    · rw [after_bind, after_update]
      refine ⟨fun _ => ⟨?_, ?_⟩, fun missing => ?_⟩
      · refine (exists_get?_modifyBlock _ id _ _).mpr ⟨leaf, ?_⟩
        rw [get?_insert, if_pos rfl]
        rfl
      · have keeps : ∀ input, (plug input).name = input.name := fun _ => rfl
        exact left_unplug tidy found was made foretold keeps (.inr rfl) plugged scripts
      · have present := lookups id
        rw [if_pos rfl] at present
        cases present.symm.trans missing
  · apply Left.unchanged _ rfl
    intro known
    obtain ⟨-, template, made⟩ := foretold.mp known
    cases made.symm.trans failed

theorem ready_replug (found : arena.get? id = some block) {previous : Input}
    (was : block.input? previous.name = some previous) (own : previous.shadow = some shadow)
    {kept : Block} (stored : arena.get? shadow = some kept) :
    After (replug id shadow kept previous) arena (Ready arena id previous.name)
      fun _ => Left arena id previous.name := by
  have known : ¬Foretold arena id previous.name := by
    rintro ⟨other, input, template, lookup, -, held, -, names, -⟩
    cases Option.some.inj (found.symm.trans lookup)
    cases Option.some.inj (was.symm.trans held)
    cases Option.some.inj (own.symm.trans names)
    cases (arena.get?_freshId "shadow").symm.trans stored
  rw [replug, after_bind, after_check]
  refine ⟨fun field _ => ?_, fun _ _ => .unchanged known rfl⟩
  rw [after_bind, after_update]
  refine ⟨fun _ => ⟨?_, ?_⟩, fun missing => absurd (found.symm.trans missing) (by simp)⟩
  · exact (exists_get?_modifyBlock _ id _ shadow).mpr ⟨kept, stored⟩
  · exact .unchanged known (unplug_replug found was own)

theorem not_foretold_of_absent (found : arena.get? id = some block)
    (absent : block.input? name = none) : ¬Foretold arena id name := by
  rintro ⟨other, input, _, lookup, -, held, -⟩
  cases Option.some.inj (found.symm.trans lookup)
  cases absent.symm.trans held

/-- A name is resolved, or refused, on any tidy blocks. -/
theorem ready_resolve (tidy : arena.Tidy) (id name : String) :
    After (resolve id name) arena (Ready arena id name) fun _ => Left arena id name := by
  have of_known {slot : Slot} (known : ¬Foretold arena id name) (noPlug : slot.plug = none)
      (stored : ∃ block, arena.get? slot.block = some block) : Ready arena id name slot arena := by
    refine ⟨stored, ?_⟩
    rw [noPlug]
    exact .unchanged known rfl
  apply after_resolve_of_leads
  intro revision leads
  cases leads with
  | missing absent =>
    apply Left.unchanged _ rfl
    rintro ⟨block, _, _, lookup, -⟩
    cases absent.symm.trans lookup
  | own found isField =>
    refine of_known ?_ rfl ⟨_, found⟩
    rintro ⟨other, _, _, lookup, plain, -⟩
    cases Option.some.inj (found.symm.trans lookup)
    cases isField.symm.trans plain
  | plugged found _ plugged =>
    have known : ¬Foretold arena id name := by
      rintro ⟨other, input, _, lookup, -, held, empty, -⟩
      cases Option.some.inj (found.symm.trans lookup)
      rw [Block.plugged?, held, Option.bind_some, empty] at plugged
      cases plugged
    rw [after_bind, after_stored]
    refine ⟨fun held stored => ?_, fun _ => .unchanged known rfl⟩
    rw [after_bind, after_check]
    exact ⟨fun field _ => of_known known rfl ⟨held, stored⟩, fun _ _ => .unchanged known rfl⟩
  | owned found _ was _ own stored => exact ready_replug found was own stored
  | @bare block previous found plain was empty _ =>
    have foretold : Foretold arena id previous.name ↔
        previous.shadow = some (arena.freshId "shadow").1 ∧
          ∃ template, shadowTemplate block.opcode previous.name = .ok template := by
      constructor
      · rintro ⟨other, input, template, lookup, -, held, -, names, made⟩
        cases Option.some.inj (found.symm.trans lookup)
        cases Option.some.inj (was.symm.trans held)
        exact ⟨names, template, made⟩
      · rintro ⟨names, template, made⟩
        exact ⟨block, previous, template, found, plain, was, empty, names, made⟩
    have isPrevious : Previous block false previous := was
    exact ready_plugNew tidy found isPrevious foretold
  | @expected name block found _ absent _ =>
    have isPrevious : Previous block true (Input.empty name) := absent
    refine ready_plugNew tidy found isPrevious ⟨fun known => ?_, ?_⟩
    · exact absurd known (not_foretold_of_absent found absent)
    · rintro ⟨⟨⟩, -⟩
  | unavailable found _ absent => exact .unchanged (not_foretold_of_absent found absent) rfl

end FieldWrite

namespace Project

variable {project : Project} {index : Nat} {target : Target}

/-- A message that is asked for leaves the blocks alone; without a stage it changes no target. -/
theorem targets_contentField (content : FieldWrite.Content)
    (found : project.targets[index]? = some target) :
    After (FieldWrite.contentField content) project
      (fun _ next => ∃ same, next.targets[index]? = some same ∧ same.blocks = target.blocks)
      fun _ next => next.targets = project.targets := by
  cases content with
  | plain text => exact ⟨target, found, rfl⟩
  | reference label id => exact ⟨target, found, rfl⟩
  | message name =>
    rw [FieldWrite.contentField, after_bind]
    apply (announces_of_ensureBroadcast project name).mono
    · intro _ _ announces
      exact announces.blocks found
    · rintro _ _ ⟨-, rfl⟩
      exact rfl

/-- A write to a block that is there changes no target when it fails. -/
theorem targets_write (editor : Editor) (slot : FieldWrite.Slot) (value : String)
    (found : project.targets[index]? = some target)
    (stored : ∃ block, target.blocks.get? slot.block = some block) :
    After (FieldWrite.write editor index slot value) project (fun _ _ => True)
      fun _ next => next.targets = project.targets := by
  obtain ⟨block, stored⟩ := stored
  rw [FieldWrite.write, after_bind, after_onBlocks_of_get? found, Arena.after_stored,
    putBlocks_same found]
  refine ⟨fun owner _ => ?_, fun _ => rfl⟩
  simp only [after_bind, after_get, after_check]
  refine ⟨fun content _ => ⟨fun _ _ => ?_, fun _ _ => trivial⟩, fun _ _ => trivial⟩
  refine (targets_contentField content found).mono ?_ fun _ _ => id
  rintro field next ⟨kept, keptFound, same⟩
  rw [← same] at stored
  rw [after_onBlocks_of_get? keptFound, Arena.after_update_of_get? stored]
  trivial

/-- What a failed write leaves of a project: without an editing target all, else all but the blocks
of that target. -/
structure Remains (project : Project) (block name : String) (next : Project) : Prop where
  unset : ∀ fault, project.requireEditing = .error fault → next = project
  left : ∀ index target, project.requireEditing = .ok (index, target) →
    ∃ blocks, FieldWrite.Left target.blocks block name blocks ∧
      next.SameTargets (project.putBlocks index blocks)

namespace Remains

variable {next : Project} {block name : String}

theorem of_left (required : project.requireEditing = .ok (index, target)) {blocks : Arena}
    (left : FieldWrite.Left target.blocks block name blocks)
    (targets : next.targets = (project.putBlocks index blocks).targets) :
    project.Remains block name next := by
  constructor
  · intro fault failed
    cases required.symm.trans failed
  · intro other same chosen
    cases Except.ok.inj (required.symm.trans chosen)
    exact ⟨blocks, left, congrArg (List.map Target.uncounted) targets⟩

/-- A foretold shadow is all that is new. -/
theorem leftover (remains : project.Remains block name next)
    (required : project.requireEditing = .ok (index, target))
    (foretold : FieldWrite.Foretold target.blocks block name) :
    ∃ opcode field value, next.SameTargets (project.putBlocks index
      (target.blocks.insert (target.blocks.freshId "shadow").1
        (.newShadow block opcode field value))) := by
  obtain ⟨blocks, ⟨-, stays⟩, same⟩ := remains.left index target required
  obtain ⟨opcode, field, value, equal⟩ := stays foretold
  have lookup := get_putBlocks (requireEditing_eq_ok required).2 (target.blocks.insert
    (target.blocks.freshId "shadow").1 (.newShadow block opcode field value))
  have put := SameTargets.putBlocks lookup equal
  rw [putBlocks_putBlocks] at put
  exact ⟨opcode, field, value, same.trans put⟩

theorem sameTargets_iff (remains : project.Remains block name next) :
    next.SameTargets project ↔ ∀ index target, project.requireEditing = .ok (index, target) →
      ¬FieldWrite.Foretold target.blocks block name := by
  constructor
  · intro same index target required foretold
    have found := (requireEditing_eq_ok required).2
    obtain ⟨opcode, field, value, differs⟩ := remains.leftover required foretold
    obtain ⟨other, lookup, equal⟩ := (same.symm.trans differs).get (get_putBlocks found _)
    cases Option.some.inj (found.symm.trans lookup)
    -- The new id was free before.
    have lookups := Arena.get?_of_uncounted (congrArg Target.blocks equal)
      (target.blocks.freshId "shadow").1
    rw [Arena.get?_freshId, Arena.get?_insert, if_pos rfl] at lookups
    cases lookups
  · intro known
    cases required : project.requireEditing with
    | error fault =>
      rw [remains.unset fault required]
      exact .refl project
    | ok chosen =>
      obtain ⟨index, target⟩ := chosen
      obtain ⟨blocks, ⟨kept, -⟩, same⟩ := remains.left index target required
      have found := (requireEditing_eq_ok required).2
      have restored : (project.putBlocks index blocks).SameTargets project :=
        .putBlocks found (kept (known index target required))
      exact same.trans restored

end Remains

/-- A failed write leaves all as it was but the blocks of the editing target. -/
theorem remains_setField (tidy : project.Every fun target => target.blocks.Tidy) (editor : Editor)
    (block name value : String) :
    After (setField editor block name value) project (fun _ _ => True)
      fun _ => project.Remains block name := by
  rw [setField, after_bind, after_editingIndex]
  refine ⟨fun index target required => ?_, fun fault failed => ⟨fun _ _ => rfl, ?_⟩⟩
  · have found := (requireEditing_eq_ok required).2
    rw [after_bind, after_onBlocks_of_get? found]
    refine (FieldWrite.ready_resolve (tidy.get found) block name).mono ?_
      fun _ _ left => .of_left required left rfl
    intro slot blocks ready
    have nextFound := get_putBlocks found blocks
    rw [after_tryCatch]
    refine (targets_write editor slot value nextFound ready.found).mono (fun _ _ => id) ?_
    intro fault next targets
    have back := ready.left
    cases plugged : slot.plug with
    | none =>
      rw [plugged] at back
      exact .of_left required back targets
    | some plug =>
      rw [plugged] at back
      rw [← targets] at nextFound
      rw [after_bind, after_onBlocks_of_get? nextFound, after_modify, after_throw]
      apply Remains.of_left required back
      rw [targets_putBlocks targets, putBlocks_putBlocks]
      rfl
  · intro index target required
    cases required.symm.trans failed

end Project

/-- Where a project from a document has been edited by requests, a field write that fails leaves all
targets as they were if and only if the shadow it generates is not foretold. A foretold one stays
behind, and nothing else differs. -/
theorem Session.setField_fails {value : Json} {session : Session} {reached next : Project}
    (read : Document.readProject value = .ok session.project) (requests : List Request)
    (ran : (session.executeAll requests).2.project = reached) (editor : Editor)
    (block name text : String) {fault : Fault}
    (failed : Project.setField editor block name text reached = .error fault next) :
    (next.SameTargets reached ↔ ∀ index target, reached.requireEditing = .ok (index, target) →
      ¬FieldWrite.Foretold target.blocks block name) ∧
    ∀ index target, reached.requireEditing = .ok (index, target) →
      FieldWrite.Foretold target.blocks block name → ∃ opcode field value, next.SameTargets
        (reached.putBlocks index (target.blocks.insert (target.blocks.freshId "shadow").1
          (.newShadow block opcode field value))) := by
  have storable : reached.Storable := by
    rw [← ran]
    exact Session.executeAll_storable (Document.storable_readProject read) requests
  have tidy : reached.Every fun target => target.blocks.Tidy :=
    fun target member => (storable.targets target member).tidy
  have remains := (after_of_error failed).mp (Project.remains_setField tidy editor block name text)
  exact ⟨remains.sameTargets_iff, fun _ _ => remains.leftover⟩

namespace Document

/-- A document with one block, which takes a condition. -/
def conditionDocument (inputs : List (String × Json)) : Json :=
  .ofMembers [("targets", .array [.ofMembers
    [("name", .text "Cat"), ("isStage", .bool false),
      ("blocks", .ofMembers [("a", .ofMembers
        [("opcode", .text "control_if"), ("topLevel", .bool true),
          ("inputs", .ofMembers inputs)])])]])]

def conditionProject (inputs : List Input) (counter : Nat) : Project :=
  .ofTargets [{
    name := "Cat"
    isStage := false
    blocks :=
      { blocks := .ofList [("a", { opcode := "control_if", topLevel := true, inputs := inputs })]
        scripts := ["a"]
        counter := counter }
    rest := .ofList [("name", .text "Cat"), ("isStage", .bool false)] }] ∅

/-- A condition that is missing gets a shadow, which is refused and taken back. -/
theorem setField_fails_condition :
    readProject (conditionDocument []) = .ok (conditionProject [] 0) ∧
      ∃ next, Project.setField .headless "a" "CONDITION" "yes" (conditionProject [] 0) =
          .error (.booleanOnly "CONDITION" "control_if") next ∧
        next.SameTargets (conditionProject [] 0) := by
  have read : readProject (conditionDocument []) = .ok (conditionProject [] 0) := by decide +kernel
  have failed : Project.setField .headless "a" "CONDITION" "yes" (conditionProject [] 0) =
      .error (.booleanOnly "CONDITION" "control_if") (conditionProject [] 1) := rfl
  let session : Session := { project := conditionProject [] 0 }
  have started : readProject (conditionDocument []) = .ok session.project := read
  have atomic := Session.setField_fails started [] rfl .headless "a" "CONDITION" "yes" failed
  refine ⟨read, _, failed, atomic.1.mpr ?_⟩
  intro index target required foretold
  cases required
  obtain ⟨block, input, -, found, -, held, -⟩ := foretold
  cases found
  cases held

/-- A condition that names a missing shadow by the id that comes next keeps the new shadow. -/
theorem foretold_shadow_stays :
    readProject (conditionDocument [("CONDITION", .array [.ofNat 3, .null, .text "shadow_1"])]) =
        .ok (conditionProject [⟨"CONDITION", none, some "shadow_1"⟩] 0) ∧
      ∃ next, Project.setField .headless "a" "CONDITION" "yes"
          (conditionProject [⟨"CONDITION", none, some "shadow_1"⟩] 0) =
          .error (.booleanOnly "CONDITION" "control_if") next ∧
        next.targets.map (fun target => target.blocks.ids) = [["a", "shadow_1"]] ∧
        ¬next.SameTargets (conditionProject [⟨"CONDITION", none, some "shadow_1"⟩] 0) := by
  refine ⟨by decide +kernel, (Project.setField .headless "a" "CONDITION" "yes").final
    (conditionProject [⟨"CONDITION", none, some "shadow_1"⟩] 0), rfl, by decide +kernel, ?_⟩
  rw [Project.SameTargets]
  decide +kernel

end Document

end BlockGraph
