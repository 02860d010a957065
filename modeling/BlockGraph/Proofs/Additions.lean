import BlockGraph.Proofs.Confinement
import BlockGraph.Proofs.Rollback

/-!
Blocks that cannot be added, in targets whose links need not be in order. A new block is stored with
all its shadows before its field is bound. If the binding fails, the write takes back what it has
done, since a new block has no input without a block that names a shadow; and a walk from the new
block meets its own shadows only, so discarding it leaves the blocks that were there before.
-/

set_option autoImplicit false

namespace BlockGraph

open Revision

/-- The shadows that a new block names are in its inputs, so none of them is foretold. -/
theorem NewBlock.Placed.not_foretold {arena middle next : Arena} {spec : Catalog.BlockSpec}
    {id : String} {block : Block} {shadows : List (String × Block)}
    (placed : Placed arena spec id block shadows middle next) (name : String) :
    ¬FieldWrite.Foretold next id name := by
  rintro ⟨other, input, -, found, -, held, empty, foretold, -⟩
  cases Option.some.inj (placed.get?_id.symm.trans found)
  have same := placed.templated.plugged input (List.mem_of_find?_eq_some held)
  rw [empty, foretold] at same
  cases same

namespace Project

variable {project : Project} {index : Nat} {target : Target}

/-- A field of a new block that cannot be bound leaves the new block as it was. -/
theorem sameTargets_bindings (tidy : project.Every fun target => target.blocks.Tidy) (editor : Editor)
    {id : String} (known : ∀ index target, project.requireEditing = .ok (index, target) →
      ∀ name, ¬FieldWrite.Foretold target.blocks id name)
    {bindings : List NewBlock.Binding} (few : bindings.length ≤ 1) :
    After (bindings.forM fun (field, name) => do
        let _ ← setField editor id field name) project
      (fun _ _ => True) fun _ next => next.SameTargets project := by
  match bindings, few with
  | [], _ => trivial
  | [(field, name)], _ =>
    simp only [List.forM, after_bind, after_pure]
    refine (remains_setField tidy editor id field name).mono (fun _ _ _ => trivial) ?_
    intro fault next remains
    rw [remains.sameTargets_iff]
    exact fun index target required => known index target required field

/-- A block that cannot be added changes no target. -/
theorem sameTargets_addBlock (tidy : project.Every fun target => target.blocks.Tidy)
    (editor : Editor) (opcode : String) (creation : Json) :
    After (addBlock editor opcode creation) project (fun _ _ => True)
      fun _ next => next.SameTargets project := by
  rw [addBlock, after_bind, after_get, after_bind, after_check]
  refine ⟨?_, fun _ _ => .refl project⟩
  rintro ⟨index, target⟩ required
  have found := (requireEditing_eq_ok required).2
  cases isSpec : Catalog.spec? opcode with
  | none => exact .refl project
  | some spec =>
    have listed := (Catalog.spec?_eq_some isSpec).1
    simp only
    rw [after_bind, after_check]
    refine ⟨fun requested asked => ?_, fun _ _ => .refl project⟩
    have few := NewBlock.bindings_length_le_one listed asked project index
    rw [after_bind, after_onBlocks_of_get? found]
    refine (NewBlock.after_place project target spec target.blocks).mono ?_ fun _ _ => False.elim
    rintro id blocks ⟨block, shadows, middle, placed⟩
    have placedTidy : (project.putBlocks index blocks).Every fun target => target.blocks.Tidy :=
      Every.modifyTarget tidy fun _ _ => placed.tidy listed (tidy.get found)
    rw [after_bind, after_tryCatch]
    refine (sameTargets_bindings placedTidy editor ?_ few).mono (fun _ _ _ => trivial) ?_
    · intro other same chosen name
      cases Except.ok.inj ((requireEditing_putBlocks required blocks).symm.trans chosen)
      exact placed.not_foretold name
    · intro fault next same
      obtain ⟨changed, changedFound, equal⟩ := same.get (get_putBlocks found blocks)
      have sameBlocks : changed.blocks.uncounted = blocks.uncounted := congrArg Target.blocks equal
      rw [after_bind, after_onBlocks_of_get? changedFound]
      refine (placed.after_discard (tidy.get found) sameBlocks).mono ?_ fun _ _ => False.elim
      intro _ final restored
      exact same.putBlocks_back found restored

end Project

/-- Where a project from a document has been edited by requests, a block is added or nothing is: when
it cannot be added, all blocks, scripts, variables, lists and messages are as they were, whatever the
links of the blocks were like. -/
theorem Session.addBlock_fails {value : Json} {session : Session} {reached next : Project}
    (read : Document.readProject value = .ok session.project) (requests : List Request)
    (ran : (session.executeAll requests).2.project = reached) (editor : Editor) (opcode : String)
    (creation : Json) {fault : Fault}
    (failed : Project.addBlock editor opcode creation reached = .error fault next) :
    next.SameTargets reached ∧ next.editing = reached.editing ∧ next.rest = reached.rest := by
  have storable : reached.Storable := by
    rw [← ran]
    exact Session.executeAll_storable (Document.storable_readProject read) requests
  have tidy : reached.Every fun target => target.blocks.Tidy :=
    fun target member => (storable.targets target member).tidy
  have same := (after_of_error failed).mp (Project.sameTargets_addBlock tidy editor opcode creation)
  obtain ⟨added, inside, -⟩ :=
    (after_of_error failed).mp (Project.within_addBlock editor reached opcode creation)
  exact ⟨same, inside.editing, inside.grown.rest⟩

/-- Without a stage there is nowhere to put a message, so the new block is taken back, next to an input
that names a missing shadow. -/
theorem Document.addBlock_fails_message :
    readProject (conditionDocument [("CONDITION", .array [.ofNat 3, .null, .text "shadow_2"])]) =
        .ok (conditionProject [⟨"CONDITION", none, some "shadow_2"⟩] 0) ∧
      ∃ next, Project.addBlock .headless "event_broadcast" .null
          (conditionProject [⟨"CONDITION", none, some "shadow_2"⟩] 0) =
          .error (.damaged (.noStageForMessage "message1")) next ∧
        next.SameTargets (conditionProject [⟨"CONDITION", none, some "shadow_2"⟩] 0) := by
  have read : readProject (conditionDocument
      [("CONDITION", .array [.ofNat 3, .null, .text "shadow_2"])]) =
      .ok (conditionProject [⟨"CONDITION", none, some "shadow_2"⟩] 0) := by decide +kernel
  have failed : Project.addBlock .headless "event_broadcast" .null
      (conditionProject [⟨"CONDITION", none, some "shadow_2"⟩] 0) =
      .error (.damaged (.noStageForMessage "message1"))
        { conditionProject [⟨"CONDITION", none, some "shadow_2"⟩] 2 with counter := 1 } := by
    decide +kernel
  let session : Session := { project := conditionProject [⟨"CONDITION", none, some "shadow_2"⟩] 0 }
  have started : readProject (conditionDocument
      [("CONDITION", .array [.ofNat 3, .null, .text "shadow_2"])]) = .ok session.project := read
  have atomic := Session.addBlock_fails started [] rfl .headless "event_broadcast" .null failed
  exact ⟨read, _, failed, atomic.1⟩

end BlockGraph
