import BlockGraph.Proofs.Placement
import BlockGraph.Session

/-!
Refusals: faults that tell the caller what was wrong with a request. Every other fault is a damage of
the block graph. None of the checks that come before a change finds a damage, except for the walk
through a block that is to be moved.
-/

set_option autoImplicit false

namespace BlockGraph

/-- A fault that is no damage. -/
def Fault.IsRefusal : Fault → Prop
  | .damaged _ => False
  | _ => True

theorem Fault.isRefusal_iff (fault : Fault) : fault.IsRefusal ↔ fault.kind ≠ .executionError := by
  cases fault <;> simp [IsRefusal, kind]

theorem FaultKind.code_injective {first second : FaultKind} (same : first.code = second.code) :
    first = second := by
  revert same
  cases first <;> cases second <;> decide

/-- A check that fails with nothing but refusals. -/
def Refuses {α : Type} (outcome : Except Fault α) : Prop :=
  ∀ fault, outcome = .error fault → fault.IsRefusal

namespace Refuses

variable {α β : Type}

theorem ok (value : α) : Refuses (.ok value) := by
  rintro fault ⟨⟩

theorem error {fault : Fault} (refusal : fault.IsRefusal) : Refuses (.error fault : Except Fault α) := by
  rintro _ ⟨⟩
  exact refusal

theorem bind {outcome : Except Fault α} {second : α → Except Fault β} (first : Refuses outcome)
    (later : ∀ value, outcome = .ok value → Refuses (second value)) :
    Refuses (outcome >>= second) := by
  cases ended : outcome with
  | error fault => exact .error (first fault ended)
  | ok value => exact later value ended

theorem mapM {check : α → Except Fault β} (items : List α) (each : ∀ item, Refuses (check item)) :
    Refuses (items.mapM check) := by
  induction items with
  | nil => exact .ok []
  | cons item rest ih =>
    rw [List.mapM_cons]
    apply (each item).bind
    intro result _
    exact ih.bind fun results _ => .ok _

end Refuses

open Refuses

theorem refuses_requireEditing (project : Project) : Refuses project.requireEditing := by
  unfold Project.requireEditing
  split
  · exact error trivial
  · split
    · exact error trivial
    · exact ok _

theorem refuses_declarationOwner (project : Project) (scope : Scope) :
    Refuses (project.declarationOwner scope) := by
  apply (refuses_requireEditing project).bind
  rintro ⟨index, target⟩ -
  cases scope with
  | sprite => exact ok _
  | stage =>
    dsimp only
    split
    · exact ok _
    · exact error trivial

theorem refuses_parseScope (text : String) : Refuses (Scope.parse text) := by
  unfold Scope.parse
  split
  · exact ok _
  · exact ok _
  · exact error trivial

theorem refuses_textArgument (args : Json) (key : String) :
    Refuses (Request.textArgument args key) := by
  unfold Request.textArgument
  split
  · split
    · exact error trivial
    · exact ok _
  · exact error trivial

theorem refuses_valueArgument (args : Json) : Refuses (Session.valueArgument args) := by
  unfold Session.valueArgument
  split
  · exact ok _
  · exact ok _
  · exact ok _
  · exact error trivial

theorem refuses_apiOfName (name : String) : Refuses (Api.ofName name) := by
  unfold Api.ofName
  split
  · exact error trivial
  · split
    · exact ok _
    · exact error trivial

theorem refuses_placementOfJson (value : Json) : Refuses (Placement.ofJson value) := by
  unfold Placement.ofJson
  dsimp only
  split
  · exact error trivial
  · exact ok _
  · exact ok _
  · split
    · exact ok _
    · exact error trivial
  · exact error trivial

theorem refuses_blockArgument (session : Session) (args : Json) (idKey indexKey : String) :
    Refuses (session.blockArgument args idKey indexKey) := by
  unfold Session.blockArgument
  split
  · exact ok _
  split
  · exact error trivial
  split
  · exact error trivial
  split
  · exact error trivial
  split
  · exact error trivial
  · exact ok _

theorem refuses_requestedBindings (spec : Catalog.BlockSpec) (creation : Json) :
    Refuses (NewBlock.requestedBindings spec creation) := by
  apply Refuses.bind
  · apply Refuses.mapM
    rintro ⟨key, field⟩
    dsimp only
    split
    · exact ok _
    split
    · exact error trivial
    split
    · exact ok _
    · exact error trivial
  · intro bindings _
    exact ok _

namespace FieldWrite

theorem refuses_shadowField (input id : String) (plugged : Block) :
    Refuses (shadowField input id plugged) := by
  unfold shadowField
  split
  · exact error trivial
  dsimp only
  split
  · exact ok _
  · exact error trivial

theorem refuses_shadowTemplate (opcode input : String) : Refuses (shadowTemplate opcode input) := by
  unfold shadowTemplate
  split
  · exact ok _
  · exact error trivial
  · exact ok _

theorem refuses_interpret (context : ChoiceContext) (opcode current : String) (slot : Slot)
    (value : String) : Refuses (interpret context opcode current slot value) := by
  unfold interpret
  split
  · split
    · exact error trivial
    · exact ok _
  dsimp only
  split
  · split
    · exact ok _
    · exact error trivial
  · exact ok _

theorem refuses_validate (opcode : String) (slot : Slot) (content : Content) :
    Refuses (validate opcode slot content) := by
  unfold validate
  split
  · split
    · exact error trivial
    · exact ok _
  · exact ok _

end FieldWrite

namespace Arena

theorem refuses_movable (arena : Arena) (role : Role) (id : String) :
    Refuses (arena.movable role id) := by
  unfold movable
  split
  · exact error trivial
  split
  · exact error trivial
  · exact ok _

theorem refuses_checkBranch (target input : String) (owner : Block) :
    Refuses (checkBranch target input owner) := by
  unfold checkBranch
  split
  · exact error trivial
  split
  · exact ok _
  · exact error trivial

theorem refuses_checkValueInput (arena : Arena) (source target input : String)
    (moved owner : Block) : Refuses (arena.checkValueInput source target input moved owner) := by
  unfold checkValueInput
  dsimp only
  split
  · exact error trivial
  split
  · exact error trivial
  split
  · exact error trivial
  split
  · exact error trivial
  · exact ok _

/-- A placement is refused, unless the walk through the moved block finds a damage. -/
theorem refuses_checkPlacement {arena : Arena} {source : String}
    (walks : ∀ block, arena.get? source = some block →
      ∃ subtree, arena.subtreeIds source = .ok subtree) (target : String) (placement : Placement) :
    Refuses (arena.checkPlacement source target placement) := by
  apply (refuses_movable arena .source source).bind
  intro moved isMovable
  apply (refuses_movable arena .target target).bind
  intro owner _
  obtain ⟨subtree, walked⟩ := walks moved (movable_eq_ok isMovable).1
  rw [walked]
  change Refuses (if subtree.contains target = true then _ else _)
  split
  · exact error trivial
  cases placement with
  | stackAfter =>
    dsimp only
    split
    · exact error trivial
    · exact ok _
  | statementInto input =>
    dsimp only
    split
    · exact error trivial
    · exact refuses_checkBranch target input owner
  | valueInto input => exact refuses_checkValueInput arena source target input moved owner

end Arena

end BlockGraph
