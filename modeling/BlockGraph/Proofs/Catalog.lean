import BlockGraph.Edit.NewBlock

/-!
What holds of every block type in the catalog: inputs have different names that are not those of
branches, every shadow that an input may get is of a shadow type, and a new block has at most one
field or input that names an entity.
-/

set_option autoImplicit false

namespace BlockGraph.Catalog

/-- Type of the shadow that an input of a new block holds. -/
def InputKind.shadowOpcode? : InputKind → Option String
  | .literal type _ => some type.opcode
  | .menu opcode _ _ => some opcode
  | .boolean | .prototype => none

/-- Type and field of the menu that an input offers. -/
def InputKind.menu? : InputKind → Option (String × String)
  | .menu opcode field _ => some (opcode, field)
  | _ => none

theorem specs_distinctInputs : ∀ spec ∈ specs, (spec.inputs.map InputSpec.name).Nodup := by
  decide +kernel

theorem specs_valueInputs : ∀ spec ∈ specs, ∀ input ∈ spec.inputs,
    Branch.ofName? input.name = none := by
  decide +kernel

theorem specs_bindings : ∀ spec ∈ specs,
    spec.fields.length + (NewBlock.messageBindings spec).length ≤ 1 := by
  decide +kernel

theorem kind_of_shadows : ∀ entry ∈ shadows, kind entry.1 = .shadow := by
  decide +kernel

theorem specs_shadows : ∀ spec ∈ specs, ∀ input ∈ spec.inputs,
    ∀ opcode ∈ input.kind.shadowOpcode?, opcode ∈ shadows.map Prod.fst := by
  decide +kernel

theorem specs_menus : ∀ spec ∈ specs, ∀ input ∈ spec.inputs, ∀ menu ∈ input.kind.menu?,
    primaryField? menu.1 = some menu.2 := by
  decide +kernel

/-- A literal is the value of its shadow. -/
theorem primaryField?_literal (type : LiteralType) : primaryField? type.opcode = some type.field := by
  cases type <;> decide +kernel

/-- What a new block holds in an input is no boolean. -/
theorem specs_notBoolean : ∀ spec ∈ specs, ∀ input ∈ spec.inputs,
    input.kind.shadowOpcode? ≠ none → isBooleanInput spec.opcode input.name = false := by
  decide +kernel

theorem kind_of_mem_shadows {opcode : String} (listed : opcode ∈ shadows.map Prod.fst) :
    kind opcode = .shadow := by
  obtain ⟨entry, member, rfl⟩ := List.mem_map.mp listed
  exact kind_of_shadows entry member

/-- Only shadows have a field that holds their value. -/
theorem kind_of_primaryField? {opcode field : String} (found : primaryField? opcode = some field) :
    kind opcode = .shadow := by
  obtain ⟨entry, first, -⟩ := Option.bind_eq_some_iff.mp found
  obtain rfl : entry.1 = opcode := by simpa using List.find?_some first
  exact kind_of_shadows entry (List.mem_of_find?_eq_some first)

theorem hats_not_shadows : ∀ entry ∈ shadows, isHat entry.1 = false := by
  decide +kernel

theorem solid_of_isHat {opcode : String} (hat : isHat opcode = true) : kind opcode ≠ .shadow := by
  intro isShadow
  unfold kind at isShadow
  split at isShadow
  · cases isShadow
  · split at isShadow
    · rename_i listed
      obtain ⟨entry, member, same⟩ := List.any_eq_true.mp listed
      rw [← of_decide_eq_true same, hats_not_shadows entry member] at hat
      cases hat
    · cases isShadow

theorem spec?_eq_some {opcode : String} {spec : BlockSpec} (found : spec? opcode = some spec) :
    spec ∈ specs ∧ spec.opcode = opcode := by
  refine ⟨List.mem_of_find?_eq_some found, ?_⟩
  simpa using List.find?_some found

theorem valueInput_of_expected {opcode name : String}
    (expected : name ∈ expectedInputs opcode) : Branch.ofName? name = none := by
  unfold expectedInputs at expected
  cases found : spec? opcode with
  | none => simp [found] at expected
  | some spec =>
    have listed : name ∈ spec.inputs.map InputSpec.name := by simpa [found] using expected
    obtain ⟨input, member, rfl⟩ := List.mem_map.mp listed
    exact specs_valueInputs spec (spec?_eq_some found).1 input member

end BlockGraph.Catalog

namespace BlockGraph.FieldWrite

/-- A shadow for an input has the field that holds its value. -/
theorem primaryField?_shadowTemplate {opcode input shadow field value : String}
    (template : shadowTemplate opcode input = .ok (shadow, field, value)) :
    Catalog.primaryField? shadow = some field := by
  unfold shadowTemplate at template
  split at template
  · rename_i menu field' value' found
    cases template
    unfold Catalog.inputKind? at found
    obtain ⟨spec, isSpec, found⟩ := Option.bind_eq_some_iff.mp found
    obtain ⟨slot, first, isMenu⟩ := Option.map_eq_some_iff.mp found
    apply Catalog.specs_menus spec (Catalog.spec?_eq_some isSpec).1 slot
      (List.mem_of_find?_eq_some first) (shadow, field)
    rw [isMenu]
    rfl
  · cases template
  · cases template
    exact Catalog.primaryField?_literal _

theorem kind_shadowTemplate {opcode input shadow field value : String}
    (template : shadowTemplate opcode input = .ok (shadow, field, value)) :
    Catalog.kind shadow = .shadow :=
  Catalog.kind_of_primaryField? (primaryField?_shadowTemplate template)

end BlockGraph.FieldWrite
