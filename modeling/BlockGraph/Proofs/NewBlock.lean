import BlockGraph.Proofs.Arena
import BlockGraph.Proofs.Catalog
import BlockGraph.Proofs.Outcomes
import BlockGraph.Proofs.Slots

/-!
What a new block consists of: a script of its own, with inputs named as its type says and a new
shadow in each of them that takes literals or menu entries.
-/

set_option autoImplicit false

namespace BlockGraph

open Revision

namespace Identifier

theorem block_ne_shadow (first second : Nat) : make "block" first ≠ make "shadow" second := by
  intro same
  have lists : (make "block" first).toList = (make "shadow" second).toList := by rw [same]
  simp only [make, String.toList_append] at lists
  have heads := congrArg List.head? lists
  simp at heads

end Identifier

namespace Arena

variable {arena : Arena}

theorem freshId_eq (arena : Arena) (stem : String) :
    ∃ number, arena.freshId stem = (Identifier.make stem number, { arena with counter := number }) ∧
      arena.counter < number :=
  ⟨_, rfl, Identifier.lt_freshNumber _ _ _⟩

/-- Stores blocks one after the other. -/
def insertAll (arena : Arena) (entries : List (String × Block)) : Arena :=
  entries.foldl (fun arena (id, block) => arena.insert id block) arena

theorem get?_insertAll_of_not_mem {entries : List (String × Block)} {id : String}
    (absent : id ∉ entries.map Prod.fst) : (arena.insertAll entries).get? id = arena.get? id := by
  induction entries generalizing arena with
  | nil => rfl
  | cons entry rest ih =>
    simp only [List.map_cons, List.mem_cons, not_or] at absent
    have step : (arena.insertAll (entry :: rest)).get? id = (arena.insert entry.1 entry.2).get? id :=
      ih absent.2
    rw [step, get?_insert, if_neg (Ne.symm absent.1)]

theorem get?_insertAll_of_mem {entries : List (String × Block)}
    (distinct : (entries.map Prod.fst).Nodup) {id : String} {block : Block}
    (member : (id, block) ∈ entries) : (arena.insertAll entries).get? id = some block := by
  induction entries generalizing arena with
  | nil => cases member
  | cons entry rest ih =>
    have keys := List.nodup_cons.mp distinct
    rcases List.mem_cons.mp member with rfl | later
    · have step : (arena.insertAll ((id, block) :: rest)).get? id = (arena.insert id block).get? id :=
        get?_insertAll_of_not_mem keys.1
      rw [step, get?_insert, if_pos rfl]
    · exact ih keys.2 later

theorem scripts_insertAll {entries : List (String × Block)}
    (below : ∀ entry ∈ entries, entry.2.topLevel = false) :
    (arena.insertAll entries).scripts = arena.scripts := by
  induction entries generalizing arena with
  | nil => rfl
  | cons entry rest ih =>
    have step : (arena.insertAll (entry :: rest)).scripts = (arena.insert entry.1 entry.2).scripts :=
      ih fun other later => below other (List.mem_cons_of_mem _ later)
    rw [step, insert, below entry List.mem_cons_self]
    rfl

end Arena

namespace NewBlock

/-- Inputs of a new block with the shadows in them, made from their declarations. -/
structure Templated (arena next : Arena) (owner : String) (specs : List Catalog.InputSpec)
    (inputs : List Input) (shadows : List (String × Block)) : Prop where
  lookups : ∀ id, next.get? id = arena.get? id
  scripts : next.scripts = arena.scripts
  counter : arena.counter ≤ next.counter
  names : inputs.map Input.name = specs.map Catalog.InputSpec.name
  plugged : ∀ input ∈ inputs, input.shadow = input.block
  /-- Only an input that is declared with a shadow holds one. -/
  filled : ∀ input ∈ inputs, input.block ≠ none →
    ∃ spec ∈ specs, spec.name = input.name ∧ spec.kind.shadowOpcode? ≠ none
  children : inputs.flatMap Input.childIds = shadows.map Prod.fst
  distinct : (shadows.map Prod.fst).Nodup
  fresh : ∀ entry ∈ shadows, arena.get? entry.1 = none ∧
    ∃ number, arena.counter < number ∧ entry.1 = Identifier.make "shadow" number
  blocks : ∀ entry ∈ shadows, ∃ opcode field value,
    entry.2 = Block.newShadow owner opcode field value ∧
      ∃ spec ∈ specs, spec.kind.shadowOpcode? = some opcode

theorem shadowOf?_opcode {project : Project} {target : Target} {kind : Catalog.InputKind}
    {opcode field value : String}
    (template : shadowOf? project target kind = some (opcode, field, value)) :
    kind.shadowOpcode? = some opcode := by
  cases kind with
  | literal type text =>
    cases template
    rfl
  | menu shadow name text =>
    cases template
    rfl
  | boolean => cases template
  | prototype => cases template

theorem after_templateInputs (project : Project) (target : Target) (owner : String)
    (specs : List Catalog.InputSpec) (arena : Arena) :
    After (templateInputs project target owner specs) arena
      (fun result next => Templated arena next owner specs result.1 result.2) fun _ _ => False := by
  induction specs generalizing arena with
  | nil =>
    rw [templateInputs, after_pure]
    have none : ∀ entry : String × Block, entry ∉ [] := fun _ => List.not_mem_nil
    exact ⟨fun _ => rfl, rfl, Nat.le_refl _, rfl, by simp, by simp, rfl, List.nodup_nil,
      fun entry member => absurd member (none entry),
      fun entry member => absurd member (none entry)⟩
  | cons spec rest ih =>
    rw [templateInputs]
    cases template : shadowOf? project target spec.kind with
    | none =>
      simp only [after_bind, after_pure]
      refine (ih arena).mono ?_ fun _ _ => id
      rintro ⟨inputs, shadows⟩ next made
      refine ⟨made.lookups, made.scripts, made.counter, ?_, ?_, ?_, made.children, made.distinct,
        made.fresh, ?_⟩
      · simp [Input.empty, made.names]
      · intro input member
        rcases List.mem_cons.mp member with rfl | later
        · rfl
        · exact made.plugged input later
      · intro input member holds
        rcases List.mem_cons.mp member with rfl | later
        · exact absurd rfl holds
        · obtain ⟨declared, inside, named⟩ := made.filled input later holds
          exact ⟨declared, List.mem_cons_of_mem _ inside, named⟩
      · intro entry member
        obtain ⟨opcode, field, value, same, other, inside, kind⟩ := made.blocks entry member
        exact ⟨opcode, field, value, same, other, List.mem_cons_of_mem _ inside, kind⟩
    | some shadow =>
      obtain ⟨opcode, field, value⟩ := shadow
      obtain ⟨number, minted, less⟩ := arena.freshId_eq "shadow"
      have isFresh := arena.get?_freshId "shadow"
      simp only [after_bind, Arena.after_newId, after_pure]
      rw [minted] at isFresh ⊢
      refine (ih { arena with counter := number }).mono ?_ fun _ _ => id
      rintro ⟨inputs, shadows⟩ next made
      have later : ∀ entry ∈ shadows, arena.get? entry.1 = none ∧
          ∃ other, number < other ∧ entry.1 = Identifier.make "shadow" other := made.fresh
      refine ⟨made.lookups, made.scripts, Nat.le_trans (Nat.le_of_lt less) made.counter, ?_, ?_, ?_,
        ?_, ?_, ?_, ?_⟩
      · simp [made.names]
      · intro input member
        rcases List.mem_cons.mp member with rfl | inside
        · rfl
        · exact made.plugged input inside
      · intro input member holds
        rcases List.mem_cons.mp member with rfl | inside
        · exact ⟨spec, List.mem_cons_self, rfl, by simp [shadowOf?_opcode template]⟩
        · obtain ⟨declared, listed, named⟩ := made.filled input inside holds
          exact ⟨declared, List.mem_cons_of_mem _ listed, named⟩
      · simp [Input.childIds, made.children]
      · refine List.nodup_cons.mpr ⟨?_, made.distinct⟩
        intro member
        obtain ⟨entry, inside, same⟩ := List.mem_map.mp member
        obtain ⟨-, other, greater, named⟩ := later entry inside
        have numbers := Identifier.make_injective (named.symm.trans same)
        omega
      · intro entry member
        rcases List.mem_cons.mp member with rfl | inside
        · exact ⟨isFresh, number, less, rfl⟩
        · obtain ⟨free, other, greater, named⟩ := later entry inside
          exact ⟨free, other, Nat.lt_trans less greater, named⟩
      · intro entry member
        rcases List.mem_cons.mp member with rfl | inside
        · exact ⟨opcode, field, value, rfl, spec, List.mem_cons_self, shadowOf?_opcode template⟩
        · obtain ⟨opcode, field, value, same, other, listed, kind⟩ := made.blocks entry inside
          exact ⟨opcode, field, value, same, other, List.mem_cons_of_mem _ listed, kind⟩

/-- A new block with its shadows, stored under new ids. -/
structure Placed (arena : Arena) (spec : Catalog.BlockSpec) (id : String) (block : Block)
    (shadows : List (String × Block)) (middle next : Arena) : Prop where
  fresh : arena.get? id = none
  apart : id ∉ shadows.map Prod.fst
  opcode : block.opcode = spec.opcode
  fields : block.fields = Dict.ofList (spec.fields.map fun (name, value) => (name, .plain value))
  branches : block.branches = {}
  below : block.next = none
  parent : block.parent = none
  topLevel : block.topLevel = true
  templated : Templated arena middle id spec.inputs block.inputs shadows
  result : next = (middle.insert id block).insertAll shadows

theorem after_place (project : Project) (target : Target) (spec : Catalog.BlockSpec)
    (arena : Arena) :
    After (place project target spec) arena
      (fun id next => ∃ block shadows middle, Placed arena spec id block shadows middle next)
      fun _ _ => False := by
  obtain ⟨number, minted, less⟩ := arena.freshId_eq "block"
  have isFresh := arena.get?_freshId "block"
  rw [place, after_bind, Arena.after_newId]
  rw [minted] at isFresh ⊢
  rw [after_bind, after_get, after_bind]
  refine (after_templateInputs project target _ spec.inputs { arena with counter := number }).mono
    ?_ fun _ _ => id
  rintro ⟨inputs, shadows⟩ middle made
  simp only [after_bind, after_modify, after_pure]
  refine ⟨_, shadows, middle, isFresh, ?_, rfl, rfl, rfl, rfl, rfl, rfl, ?_, rfl⟩
  · intro member
    obtain ⟨entry, inside, same⟩ := List.mem_map.mp member
    obtain ⟨-, other, -, named⟩ := made.fresh entry inside
    exact Identifier.block_ne_shadow number other (same.symm.trans named)
  · refine ⟨made.lookups, made.scripts, Nat.le_trans (Nat.le_of_lt less) made.counter, made.names,
      made.plugged, made.filled, made.children, made.distinct, ?_, made.blocks⟩
    intro entry inside
    obtain ⟨free, other, greater, named⟩ := made.fresh entry inside
    exact ⟨free, other, Nat.lt_trans less greater, named⟩

/-- A binding that a hint asks for is one of a field of the block. -/
theorem field_of_hint {spec : Catalog.BlockSpec} {creation : Json} {key field : String}
    {outcome : Option Binding}
    (answered : (match creation.get? key with
      | none => pure none
      | some hint =>
        match hint.text? with
        | none => throw (.notText key)
        | some name =>
          if spec.fields.any fun (declared, _) => declared = field then pure (some (field, name))
          else throw (.noFieldToBind spec.opcode field) : Except Fault (Option Binding)) =
      .ok outcome) :
    ∀ binding, outcome = some binding → binding.1 = field ∧
      ∃ declared ∈ spec.fields, declared.1 = field := by
  intro binding asked
  split at answered
  · cases answered
    cases asked
  split at answered
  · cases answered
  split at answered
  · rename_i declares
    cases answered
    cases asked
    obtain ⟨declared, member, same⟩ := List.any_eq_true.mp declares
    exact ⟨rfl, declared, member, by simpa using same⟩
  · cases answered

/-- The creation hints ask for at most one binding of each kind. -/
theorem requestedBindings_fields {spec : Catalog.BlockSpec} {creation : Json}
    {requested : List Binding} (asked : requestedBindings spec creation = .ok requested) :
    ∃ first second : Option Binding, requested = first.toList ++ second.toList ∧
      (∀ binding, first = some binding → binding.1 = "VARIABLE" ∧
        ∃ declared ∈ spec.fields, declared.1 = "VARIABLE") ∧
      ∀ binding, second = some binding → binding.1 = "LIST" ∧
        ∃ declared ∈ spec.fields, declared.1 = "LIST" := by
  simp only [requestedBindings, bind, Except.bind] at asked
  split at asked
  · cases asked
  rename_i results mapped
  cases asked
  cases Outcomes.forall₂_of_mapM mapped with
  | @cons _ first _ _ isFirst rest =>
  cases rest with
  | @cons _ second _ _ isSecond rest =>
  cases rest
  refine ⟨first, second, ?_, field_of_hint isFirst, field_of_hint isSecond⟩
  cases first <;> cases second <;> rfl

/-- A new block has at most one field or input to bind. -/
theorem bindings_length_le_one {spec : Catalog.BlockSpec} (listed : spec ∈ Catalog.specs)
    {creation : Json} {requested : List Binding}
    (asked : requestedBindings spec creation = .ok requested) (project : Project) (index : Nat) :
    (requested ++ implicitBindings project index spec requested ++
      messageBindings spec).length ≤ 1 := by
  have few := Catalog.specs_bindings spec listed
  obtain ⟨first, second, rfl, isVariable, isList⟩ := requestedBindings_fields asked
  rw [List.length_append, List.length_append]
  rcases fields : spec.fields with _ | ⟨own, others⟩
  · have none : first = none ∧ second = none := by
      constructor
      · cases first with
        | none => rfl
        | some binding =>
          obtain ⟨-, declared, member, -⟩ := isVariable binding rfl
          rw [fields] at member
          cases member
      · cases second with
        | none => rfl
        | some binding =>
          obtain ⟨-, declared, member, -⟩ := isList binding rfl
          rw [fields] at member
          cases member
    simp only [implicitBindings, fields, none, List.filterMap_nil, List.length_nil,
      Option.toList_none, List.nil_append]
    omega
  · have alone : others = [] ∧ messageBindings spec = [] := by
      rw [fields, List.length_cons] at few
      constructor
      · exact List.eq_nil_of_length_eq_zero (by omega)
      · exact List.eq_nil_of_length_eq_zero (by omega)
    rw [fields, alone.1] at isVariable isList
    rw [alone.2, implicitBindings, fields, alone.1]
    cases first with
    | some binding =>
      obtain ⟨named, declared, member, isOwn⟩ := isVariable binding rfl
      rw [List.mem_singleton.mp member] at isOwn
      cases second with
      | none => simp [named, isOwn]
      | some other =>
        obtain ⟨-, declared, member, same⟩ := isList other rfl
        rw [List.mem_singleton.mp member, isOwn] at same
        exact absurd same (by decide)
    | none =>
      cases second with
      | some other =>
        obtain ⟨named, declared, member, isOwn⟩ := isList other rfl
        rw [List.mem_singleton.mp member] at isOwn
        simp [named, isOwn]
      | none =>
        have short := List.length_filterMap_le
          (fun (entry : String × String) => (implicitName? project index entry.1 entry.2).map (entry.1, ·))
          [own]
        simpa using short

end NewBlock

end BlockGraph
