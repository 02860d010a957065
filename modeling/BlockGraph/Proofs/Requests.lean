import BlockGraph.Proofs.Operations

/-!
What every operation keeps, whether it succeeds or fails, is kept by every request and by every run of
requests.
-/

set_option autoImplicit false

namespace BlockGraph

open Revision

namespace Project

/-- A condition on projects that the steps of a field write and of adding a block keep while a given
editor shows the project. -/
structure Steady (editor : Editor) (condition : Project → Prop) : Prop where
  resolve : ∀ index block name, Maintains condition (onBlocks index (FieldWrite.resolve block name))
  write : ∀ index slot value, Maintains condition (FieldWrite.write editor index slot value)
  unplug : ∀ index plug, Maintains condition (onBlocks index (modify (FieldWrite.unplug · plug)))
  place : ∀ index project target, ∀ spec ∈ Catalog.specs,
    Maintains condition (onBlocks index (NewBlock.place project target spec))
  discard : ∀ index id, Maintains condition (onBlocks index (Arena.discard id))

namespace Steady

variable {editor : Editor} {condition : Project → Prop}

theorem setField (steady : Steady editor condition) (block name value : String) :
    Maintains condition (Project.setField editor block name value) := by
  apply maintains_editingIndex.bind
  intro index
  apply (steady.resolve index block name).bind
  intro slot
  apply (steady.write index slot value).tryCatch
  intro fault
  cases slot.plug with
  | none => exact .throw fault
  | some plug => exact (steady.unplug index plug).bind fun _ => .throw fault

theorem addBlock (steady : Steady editor condition) (opcode : String) (creation : Json) :
    Maintains condition (Project.addBlock editor opcode creation) := by
  apply Maintains.bind_get
  intro project holds
  refine Maintains.bind (.check _) ?_ project holds
  rintro ⟨index, target⟩
  cases found : Catalog.spec? opcode with
  | none => exact .throw _
  | some spec =>
    apply Maintains.bind (.check _)
    intro requested
    apply (steady.place index project target spec (List.mem_of_find?_eq_some found)).bind
    intro id
    refine Maintains.bind ?_ fun _ => .pure _
    apply Maintains.tryCatch
    · apply Maintains.forM
      intro binding
      exact (steady.setField id binding.1 binding.2).bind fun _ => .pure _
    · intro fault
      exact (steady.discard index id).bind fun _ => .throw fault

end Steady

end Project

/-- A condition that all operations keep. -/
structure Project.Stable (editor : Editor) (condition : Project → Prop) : Prop
    extends Steady editor condition where
  declare : ∀ kind name scope, Maintains condition (Project.declare kind name scope)
  connect : ∀ source target placement,
    Maintains condition (Project.connectBlocks source target placement)
  detach : ∀ id, Maintains condition (Project.detachBlocks id)
  delete : ∀ id, Maintains condition (Project.deleteBlock id)
  selectSprite : ∀ name, Maintains condition (Project.selectSprite name)
  selectStage : Maintains condition Project.selectStage

theorem Project.Stable.change {editor : Editor} {condition : Project → Prop}
    (stable : Stable editor condition) (operation : Operation) :
    Maintains condition (operation.change editor) := by
  cases operation with
  | setField block name value => exact (stable.toSteady.setField block name value).map
  | addBlock opcode creation => exact (stable.toSteady.addBlock opcode creation).map
  | declare kind name scope => exact (stable.declare kind name scope).map
  | connect source target placement => exact (stable.connect source target placement).map
  | detach id => exact (stable.detach id).map
  | delete id => exact (stable.delete id).map
  | selectSprite name => exact (stable.selectSprite name).map
  | selectStage => exact stable.selectStage.map

namespace Session

variable {editor : Editor} {condition : Project → Prop} {session : Session}

/-- The project of the session satisfies a condition, and the editor is the given one. -/
def Shows (editor : Editor) (condition : Project → Prop) (session : Session) : Prop :=
  session.editor = editor ∧ condition session.project

theorem execute_shows (stable : Project.Stable editor condition)
    (shows : session.Shows editor condition) (request : Request) :
    (session.execute request).2.Shows editor condition := by
  obtain ⟨rfl, holds⟩ := shows
  rcases session.execute_answers request with ⟨_, _, executed, answered⟩ | ⟨_, _, executed, failed⟩
  · rw [executed]
    cases answered with
    | listed => exact ⟨rfl, holds⟩
    | ran _ changed => exact ⟨rfl, (after_of_ok changed).mp (stable.change _ _ holds)⟩
  · rw [executed]
    cases failed with
    | refused => exact ⟨rfl, holds⟩
    | unlisted => exact ⟨rfl, holds⟩
    | stopped _ changed => exact ⟨rfl, (after_of_error changed).mp (stable.change _ _ holds)⟩

/-- What the operations keep holds after any run of requests. -/
theorem executeAll_stable (stable : Project.Stable session.editor condition)
    (holds : condition session.project) (requests : List Request) :
    condition (session.executeAll requests).2.project := by
  have runs : ∀ start : Session, start.Shows session.editor condition →
      (start.executeAll requests).2.Shows session.editor condition := by
    induction requests with
    | nil => exact fun _ shows => shows
    | cons request rest ih =>
      intro start shows
      rw [executeAll_cons]
      exact ih _ (execute_shows stable shows request)
  exact (runs session ⟨rfl, holds⟩).2

end Session

end BlockGraph
