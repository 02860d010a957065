import BlockGraph.Proofs.Reading

/-!
Ids that name no block. Reading a document stores a block under each key, and under generated ids for
the literals in inputs; writing fields and adding blocks store blocks under generated ids again. An id
is generated when it is free among the stored ones, so a link that leads nowhere in the document may
lead to a generated block afterwards. Only an id of the generated form can be met like this, and only
one whose number is spent.
-/

set_option autoImplicit false

namespace BlockGraph

open Revision

namespace Document

/-- What is stored under the keys of a document and the generated ids up to the last number. -/
def Filled (keys : Dict Json) (arena : Arena) : Prop :=
  ∀ id, (arena.get? id).isSome ↔ (keys.get? id).isSome ∨
    ∃ number, 0 < number ∧ number ≤ arena.counter ∧ id = Identifier.make "prim" number

theorem counter_of_store {read : String × Json → Except BlocksFault (Option Block)}
    {entries : List (String × Json)} {start arena : Arena}
    (folded : entries.foldlM (fun arena entry => (read entry).map (arena.store entry.1)) start =
      .ok arena) : arena.counter = start.counter := by
  induction entries generalizing start with
  | nil =>
    cases folded
    rfl
  | cons entry rest ih =>
    obtain ⟨next, first, later⟩ := Outcomes.foldlM_cons_eq_ok.mp folded
    rw [ih later]
    cases outcome : read entry with
    | error fault =>
      rw [outcome] at first
      cases first
    | ok block =>
      rw [outcome] at first
      cases first
      cases block <;> rfl

/-- Every key gets a block of its own. -/
theorem filled_standing {blocks : Dict Json} {written standing : Arena}
    (first : blocks.entries.foldlM storeBlock {} = .ok written)
    (second : blocks.entries.foldlM storeLiteral written = .ok standing) :
    Filled blocks standing := by
  intro id
  have stored := isSome_standing first second id
  rw [storeBlock_eq] at first
  rw [storeLiteral_eq] at second
  have counter : standing.counter = 0 := (counter_of_store second).trans (counter_of_store first)
  rw [stored, counter]
  constructor
  · exact .inl
  · rintro (key | ⟨number, positive, none, -⟩)
    · exact key
    · omega

/-- A literal in an input spends the next free number. -/
theorem filled_storePending {keys : Dict Json} {arena next : Arena} {pending : Pending}
    (filled : Filled keys arena) (stored : storePending arena pending = .ok next) :
    Filled keys next := by
  simp only [storePending] at stored
  split at stored
  · cases stored
  · cases stored
    have less := Identifier.lt_freshNumber arena.ids "prim" arena.counter
    intro id
    rw [Arena.isSome_modifyBlock, Arena.isSome_insert]
    change Identifier.make "prim" (Identifier.freshNumber arena.ids "prim" arena.counter) = id ∨
      (arena.get? id).isSome ↔ (keys.get? id).isSome ∨ ∃ number, 0 < number ∧
        number ≤ Identifier.freshNumber arena.ids "prim" arena.counter ∧
          id = Identifier.make "prim" number
    rw [filled id]
    constructor
    · rintro (rfl | key | ⟨number, positive, bound, rfl⟩)
      · exact .inr ⟨_, by omega, Nat.le_refl _, rfl⟩
      · exact .inl key
      · exact .inr ⟨number, positive, by omega, rfl⟩
    · rintro (key | ⟨number, positive, bound, rfl⟩)
      · exact .inr (.inl key)
      · rcases Nat.lt_or_ge arena.counter number with above | old
        · rcases Nat.lt_or_eq_of_le bound with below | rfl
          · -- A number that is passed over belongs to a stored block.
            have taken := Identifier.make_mem_of_lt_freshNumber above below
            obtain ⟨block, found⟩ := Arena.mem_ids_iff.mp taken
            exact .inr ((filled _).mp (by rw [found]; rfl))
          · exact .inl rfl
        · exact .inr (.inr ⟨number, positive, old, rfl⟩)

/-- After reading, exactly the keys and the spent numbers stand for blocks. -/
theorem filled_readBlocks {blocks : Dict Json} {arena : Arena}
    (read : readBlocks blocks = .ok arena) : Filled blocks arena := by
  obtain ⟨written, standing, complete, first, second, third, rfl⟩ := readBlocks_eq_ok.mp read
  have filled : Filled blocks complete := by
    refine Outcomes.foldlM_invariant third (filled_standing first second) ?_
    intro state pending _ next filled stored
    exact filled_storePending filled stored
  exact filled

end Document

namespace Arena

/-- Blocks that were added since `base` have generated ids whose numbers were spent since. -/
structure Grows (base arena : Arena) : Prop where
  counter : base.counter ≤ arena.counter
  ids : ∀ id, (arena.get? id).isSome → (base.get? id).isSome ∨
    ∃ stem ∈ ["block", "shadow"], ∃ number, base.counter < number ∧ number ≤ arena.counter ∧
      id = Identifier.make stem number

namespace Grows

variable {base arena next : Arena}

theorem refl (base : Arena) : base.Grows base :=
  ⟨Nat.le_refl _, fun _ => .inl⟩

/-- Nothing is added. -/
theorem shrink (grows : base.Grows arena) (counter : arena.counter ≤ next.counter)
    (fewer : ∀ id, (next.get? id).isSome → (arena.get? id).isSome) : base.Grows next := by
  refine ⟨Nat.le_trans grows.counter counter, ?_⟩
  intro id stored
  rcases grows.ids id (fewer id stored) with old | ⟨stem, known, number, above, bound, same⟩
  · exact .inl old
  · exact .inr ⟨stem, known, number, above, Nat.le_trans bound counter, same⟩

theorem insert (grows : base.Grows arena) {stem : String} (known : stem ∈ ["block", "shadow"])
    {number : Nat} (above : base.counter < number) (bound : number ≤ arena.counter)
    (block : Block) : base.Grows (arena.insert (Identifier.make stem number) block) := by
  refine ⟨grows.counter, ?_⟩
  intro id stored
  rcases (isSome_insert _ _ _ _).mp stored with rfl | old
  · exact .inr ⟨stem, known, number, above, bound, rfl⟩
  · exact grows.ids id old

theorem modifyBlock (grows : base.Grows arena) (id : String) (change : Block → Block) :
    base.Grows (arena.modifyBlock id change) := by
  refine grows.shrink (Nat.le_refl _) ?_
  intro other stored
  rwa [isSome_modifyBlock] at stored

theorem remove (grows : base.Grows arena) (id : String) : base.Grows (arena.remove id) := by
  refine grows.shrink (Nat.le_refl _) ?_
  intro other stored
  rw [get?_remove] at stored
  split at stored
  · cases stored
  · exact stored

theorem removeAll (grows : base.Grows arena) (ids : List String) :
    base.Grows (arena.removeAll ids) := by
  induction ids generalizing arena with
  | nil => exact grows
  | cons id rest ih => exact ih (grows.remove id)

theorem insertAll (grows : base.Grows arena) {entries : List (String × Block)}
    (fresh : ∀ entry ∈ entries, ∃ number, base.counter < number ∧ number ≤ arena.counter ∧
      entry.1 = Identifier.make "shadow" number) : base.Grows (arena.insertAll entries) := by
  induction entries generalizing arena with
  | nil => exact grows
  | cons entry rest ih =>
    obtain ⟨number, above, bound, same⟩ := fresh entry List.mem_cons_self
    have first : base.Grows (arena.insert entry.1 entry.2) := by
      rw [same]
      exact grows.insert (by decide) above bound entry.2
    exact ih first fun other member => fresh other (List.mem_cons_of_mem _ member)

end Grows

variable {base : Arena}

theorem grows_update (id : String) (change : Block → Block) :
    Maintains base.Grows (update id change) :=
  .update fun _ grows => grows.modifyBlock id change

theorem grows_discard (root : String) : Maintains base.Grows (discard root) := by
  intro arena grows
  rw [after_discard]
  exact ⟨fun gone _ => grows.removeAll gone, fun _ _ => grows⟩

end Arena

namespace FieldWrite

variable {base : Arena}

theorem grows_unplug (plug : Plug) :
    Maintains base.Grows (modify (unplug · plug) : Revision Arena PUnit) := by
  apply Maintains.modify
  intro arena grows
  simp only [unplug]
  split
  · exact grows.modifyBlock _ _
  · exact (grows.remove _).modifyBlock _ _

theorem grows_plugNew (owner opcode : String) (isNew : Bool) (previous : Input) :
    Maintains base.Grows (plugNew owner opcode isNew previous) := by
  refine (Maintains.check (shadowTemplate opcode previous.name)).bind ?_
  rintro ⟨shadowOpcode, field, template⟩ arena grows
  obtain ⟨number, minted, less⟩ := arena.freshId_eq "shadow"
  rw [after_bind, Arena.after_newId, after_bind, after_modify, minted]
  have counted : base.Grows { arena with counter := number } :=
    grows.shrink (Nat.le_of_lt less) fun _ => id
  have inserted := counted.insert (by decide : "shadow" ∈ ["block", "shadow"])
    (Nat.lt_of_le_of_lt grows.counter less) (Nat.le_refl number)
    (Block.newShadow owner shadowOpcode field template)
  simp only
  split
  · exact (grows_unplug _).bind (fun _ => .throw _) _ inserted
  · exact (Arena.grows_update owner _).bind (fun _ => .pure _) _ inserted

theorem grows_replug (owner shadow : String) (block : Block) (previous : Input) :
    Maintains base.Grows (replug owner shadow block previous) := by
  apply (Maintains.check (shadowField previous.name shadow block)).bind
  intro field
  exact (Arena.grows_update owner _).bind fun _ => .pure _

theorem grows_resolve (id name : String) : Maintains base.Grows (resolve id name) :=
  maintains_resolve_of_plugs grows_replug grows_plugNew id name

end FieldWrite

namespace NewBlock

/-- Shadows of a new block get numbers that are spent on the way. -/
theorem numbers_templateInputs (project : Project) (target : Target) (owner : String)
    (specs : List Catalog.InputSpec) (arena : Arena) :
    After (templateInputs project target owner specs) arena
      (fun result next => arena.counter ≤ next.counter ∧ ∀ entry ∈ result.2, ∃ number,
        arena.counter < number ∧ number ≤ next.counter ∧ entry.1 = Identifier.make "shadow" number)
      fun _ _ => False := by
  induction specs generalizing arena with
  | nil => simp [templateInputs]
  | cons spec rest ih =>
    rw [templateInputs]
    cases shadowOf? project target spec.kind with
    | none =>
      simp only [after_bind, after_pure]
      exact ih arena
    | some shadow =>
      obtain ⟨number, minted, less⟩ := arena.freshId_eq "shadow"
      simp only [after_bind, Arena.after_newId, after_pure]
      rw [minted]
      refine (ih { arena with counter := number }).mono ?_ fun _ _ => id
      rintro ⟨inputs, shadows⟩ next ⟨counter, numbers⟩
      simp only at counter numbers
      refine ⟨by omega, ?_⟩
      intro entry member
      rcases List.mem_cons.mp member with rfl | later
      · exact ⟨number, less, counter, rfl⟩
      · obtain ⟨other, above, bound, same⟩ := numbers entry later
        exact ⟨other, by omega, bound, same⟩

theorem grows_place {base : Arena} (project : Project) (target : Target)
    (spec : Catalog.BlockSpec) : Maintains base.Grows (place project target spec) := by
  intro arena grows
  obtain ⟨number, minted, less⟩ := arena.freshId_eq "block"
  rw [place, after_bind, Arena.after_newId, minted, after_bind, after_get, after_bind]
  have made := (after_templateInputs project target (Identifier.make "block" number) spec.inputs
    { arena with counter := number }).and (numbers_templateInputs _ _ _ _ _)
  refine made.mono ?_ fun _ _ never => never.1.elim
  rintro ⟨inputs, shadows⟩ middle ⟨templated, counter, numbers⟩
  simp only at counter numbers
  simp only [after_bind, after_modify, after_pure]
  have spent : base.Grows middle := by
    refine grows.shrink (by omega) ?_
    intro id stored
    rwa [templated.lookups] at stored
  have above : base.counter < number := Nat.lt_of_le_of_lt grows.counter less
  refine Arena.Grows.insertAll (spent.insert (by decide) above counter _) ?_
  intro entry member
  obtain ⟨other, greater, bound, same⟩ := numbers entry member
  exact ⟨other, by omega, bound, same⟩

end NewBlock

namespace Project

variable {α : Type} {base project : Project}

/-- Every target grew out of the one that stood in its place. -/
def Grows (base project : Project) : Prop :=
  ∀ (index : Nat) (target : Target), project.targets[index]? = some target →
    ∃ old : Target, base.targets[index]? = some old ∧ old.blocks.Grows target.blocks

theorem Grows.of_targets (same : project.targets = base.targets) : base.Grows project := by
  intro index target found
  rw [same] at found
  exact ⟨target, found, .refl _⟩

theorem Grows.modifyTarget (grows : base.Grows project) {index : Nat} {change : Target → Target}
    (keeps : ∀ old target : Target, base.targets[index]? = some old →
      old.blocks.Grows target.blocks → old.blocks.Grows (change target).blocks) :
    base.Grows (project.modifyTarget index change) := by
  intro other changed found
  rw [get_modifyTarget] at found
  split at found
  · rename_i same
    subst same
    obtain ⟨target, lookup, rfl⟩ := Option.map_eq_some_iff.mp found
    obtain ⟨old, stood, grown⟩ := grows index target lookup
    exact ⟨old, stood, keeps old target stood grown⟩
  · exact grows other changed found

theorem grows_onBlocks (index : Nat) {change : Revision Arena α}
    (keeps : ∀ arena : Arena, Maintains arena.Grows change) :
    Maintains base.Grows (onBlocks index change) := by
  intro project grows
  rw [after_onBlocks]
  refine ⟨fun target found => ?_, fun _ => grows⟩
  obtain ⟨old, stood, grown⟩ := grows index target found
  have put : ∀ blocks : Arena, old.blocks.Grows blocks →
      base.Grows (project.putBlocks index blocks) := by
    intro blocks grown
    refine grows.modifyTarget fun other _ lookup _ => ?_
    rw [← Option.some.inj (stood.symm.trans lookup)]
    exact grown
  exact (keeps old.blocks target.blocks grown).mono (fun _ => put) fun _ => put

theorem grows_ensureBroadcast (name : String) : Maintains base.Grows (ensureBroadcast name) := by
  intro project grows
  have counted : base.Grows (project.freshEntityId "broadcast").2 := grows
  apply (announces_of_ensureBroadcast project name).mono
  · intro _ _ announces
    cases announces with
    | known => exact grows
    | created => exact counted.modifyTarget fun _ _ _ grown => grown
  · rintro _ _ ⟨-, rfl⟩
    exact counted

theorem grows_write (editor : Editor) (index : Nat) (slot : FieldWrite.Slot) (value : String) :
    Maintains base.Grows (FieldWrite.write editor index slot value) := by
  apply (grows_onBlocks index fun _ => .stored slot.block).bind
  intro owner
  apply Maintains.bind_get
  intro project grows
  refine Maintains.bind (.check _) (fun content => ?_) project grows
  apply Maintains.bind (.check _)
  intro _
  have binds : Maintains base.Grows (FieldWrite.contentField content) := by
    cases content with
    | plain text => exact .pure _
    | reference label id => exact .pure _
    | message name => exact (grows_ensureBroadcast name).bind fun _ => .pure _
  apply binds.bind
  rintro ⟨field, reported⟩
  exact (grows_onBlocks index fun _ => Arena.grows_update slot.block _).bind fun _ => .pure _

theorem grows_steady (editor : Editor) : Steady editor base.Grows where
  resolve index block name := grows_onBlocks index fun _ => FieldWrite.grows_resolve block name
  write := grows_write editor
  unplug index plug := grows_onBlocks index fun _ => FieldWrite.grows_unplug plug
  place index project target spec _ :=
    grows_onBlocks index fun _ => NewBlock.grows_place project target spec
  discard index id := grows_onBlocks index fun _ => Arena.grows_discard id

/-- A field write or a new block, asked for with some editor. -/
inductive Call where
  | setField (editor : Editor) (block name value : String)
  | addBlock (editor : Editor) (opcode : String) (creation : Json)

/-- The project that a call ends in, whether it succeeds or fails. -/
def Call.run (project : Project) : Call → Project
  | .setField editor block name value =>
    (Project.setField editor block name value).final project
  | .addBlock editor opcode creation => (Project.addBlock editor opcode creation).final project

theorem Call.grows_run (call : Call) (grows : base.Grows project) :
    base.Grows (call.run project) := by
  cases call with
  | setField editor block name value => exact ((grows_steady editor).setField block name value).final grows
  | addBlock editor opcode creation => exact ((grows_steady editor).addBlock opcode creation).final grows

theorem grows_calls (calls : List Call) (grows : base.Grows project) :
    base.Grows (calls.foldl Call.run project) := by
  induction calls generalizing project with
  | nil => exact grows
  | cons call rest ih => exact ih (call.grows_run grows)

end Project

namespace Document

/-- The blocks of a target in a document. -/
def blocksOf (target : Json) : Dict Json :=
  ((target.get? "blocks").bind Json.members?).getD ∅

theorem filled_readTarget {value : Json} {target : Target} (read : readTarget value = .ok target) :
    Filled (blocksOf value) target.blocks := by
  obtain ⟨name, isStage, blocks, arena, -, -, held, stored, rfl⟩ := readTarget_eq_ok.mp read
  have same : blocksOf value = blocks := by
    rcases held with ⟨absent, rfl⟩ | found
    · rw [blocksOf, absent]
      rfl
    · rw [blocksOf, found]
      rfl
  rw [same]
  exact filled_readBlocks stored

/-- An id that is no key of a target's blocks names a block after reading if it is a generated one
whose number is spent, and only then. After field writes and new blocks, in whatever target, it names
a block only if it did before, or if it was generated on the way. -/
theorem names_of_calls {value : Json} {project : Project} (read : readProject value = .ok project)
    {written : List Json} (listed : (value.get? "targets").bind Json.items? = some written)
    {index : Nat} {source : Json} (inRange : written[index]? = some source) {id : String}
    (dangling : (blocksOf source).get? id = none) :
    ∃ loaded, project.targets[index]? = some loaded ∧
      ((loaded.blocks.get? id).isSome ↔ ∃ number, 0 < number ∧ number ≤ loaded.blocks.counter ∧
        id = Identifier.make "prim" number) ∧
      ∀ (editing : Option Nat) (calls : List Project.Call) (reached : Target),
        (calls.foldl Project.Call.run { project with editing := editing }).targets[index]? =
          some reached → (reached.blocks.get? id).isSome →
        (loaded.blocks.get? id).isSome ∨ ∃ stem ∈ ["block", "shadow"], ∃ number,
          loaded.blocks.counter < number ∧ number ≤ reached.blocks.counter ∧
            id = Identifier.make stem number := by
  obtain ⟨sources, targets, listed', each, rfl⟩ := readProject_eq_ok.mp read
  cases Option.some.inj (listed.symm.trans listed')
  rcases Outcomes.getElem?_of_forall₂ each index with ⟨none, -⟩ | ⟨other, loaded, found, stood, made⟩
  · cases none.symm.trans inRange
  · cases Option.some.inj (found.symm.trans inRange)
    refine ⟨loaded, stood, ?_, ?_⟩
    · rw [filled_readTarget made id, dangling]
      simp
    · intro editing calls reached ended names
      have start : (Project.ofTargets targets ((value.members?.getD ∅).erase "targets")).Grows
          { Project.ofTargets targets ((value.members?.getD ∅).erase "targets") with
            editing := editing } := .of_targets rfl
      obtain ⟨old, stood', grown⟩ := Project.grows_calls calls start index reached ended
      cases Option.some.inj (stood.symm.trans stood')
      exact grown.ids id names

/-- A target with one block, which holds a literal and names a block below it. -/
def linkedTarget (next : String) : Json :=
  .ofMembers
    [("name", .text "Cat"), ("isStage", .bool false),
      ("blocks", .ofMembers [("a", .ofMembers
        [("opcode", .text "looks_say"), ("next", .text next), ("topLevel", .bool true),
          ("inputs", .ofMembers
            [("MESSAGE", .array [.ofNat 1, .array [.ofNat 10, .text "Hi"]])])])])]

def linkedDocument (next : String) : Json :=
  .ofMembers [("targets", .array [linkedTarget next])]

def linkedProject (next : String) : Project :=
  .ofTargets [{
    name := "Cat"
    isStage := false
    blocks :=
      { blocks := .ofList
          [("a", {
              opcode := "looks_say"
              next := some next
              topLevel := true
              inputs := [⟨"MESSAGE", some "prim_1", some "prim_1"⟩] }),
            ("prim_1", {
              opcode := "text"
              fields := .ofList [("TEXT", .plain "Hi")]
              parent := some "a" })]
        scripts := ["a"]
        counter := 1 }
    rest := .ofList [("name", .text "Cat"), ("isStage", .bool false)] }] ∅

/-- A link to an id that is never generated keeps leading nowhere. -/
theorem names_of_calls_gone :
    readProject (linkedDocument "gone") = .ok (linkedProject "gone") ∧
      (blocksOf (linkedTarget "gone")).get? "gone" = none ∧
      ∀ (editing : Option Nat) (calls : List Project.Call) (reached : Target),
        (calls.foldl Project.Call.run { linkedProject "gone" with editing := editing }).targets[0]? =
          some reached → reached.blocks.get? "gone" = none := by
  have read : readProject (linkedDocument "gone") = .ok (linkedProject "gone") := by decide +kernel
  have dangling : (blocksOf (linkedTarget "gone")).get? "gone" = none := by decide +kernel
  have strange : ∀ stem ∈ ["prim", "block", "shadow"], ∀ number,
      "gone" ≠ Identifier.make stem number := by
    intro stem known number same
    have heads := congrArg (fun text => text.toList.head?) same
    simp only [List.mem_cons, List.not_mem_nil, or_false] at known
    rcases known with rfl | rfl | rfl <;> simp [Identifier.make] at heads
  refine ⟨read, dangling, ?_⟩
  intro editing calls reached ended
  have inRange : [linkedTarget "gone"][0]? = some (linkedTarget "gone") := rfl
  obtain ⟨loaded, -, before, later⟩ := names_of_calls read rfl inRange dangling
  by_contra named
  rw [← ne_eq, Option.ne_none_iff_isSome] at named
  rcases later editing calls reached ended named with old | ⟨stem, known, number, -, -, same⟩
  · obtain ⟨number, -, -, same⟩ := before.mp old
    exact strange "prim" (by decide) number same
  · exact strange stem (List.mem_cons_of_mem _ known) number same

/-- A link that leads nowhere meets the block that is generated for a literal. -/
theorem literal_meets_dangling :
    readProject (linkedDocument "prim_1") = .ok (linkedProject "prim_1") ∧
      (blocksOf (linkedTarget "prim_1")).get? "prim_1" = none ∧
      ((linkedProject "prim_1").targets.map fun target =>
        ((target.blocks.get? "a").bind Block.next, (target.blocks.get? "prim_1").isSome)) =
        [(some "prim_1", true)] := by
  decide +kernel

end Document

end BlockGraph
