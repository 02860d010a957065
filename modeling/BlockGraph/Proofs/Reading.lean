import BlockGraph.Proofs.Dict
import BlockGraph.Proofs.Outcomes
import BlockGraph.Proofs.Storable

/-!
What is read from a document. The blocks that are written in full and the literals on the workspace
are stored under their own ids, the literals in inputs under new ones. Whatever the document holds,
the project that is read from it is storable.
-/

set_option autoImplicit false

namespace BlockGraph

namespace Arena

/-- Stores a block, if there is one. -/
def store (arena : Arena) (id : String) : Option Block → Arena
  | none => arena
  | some block => arena.insert id block

theorem get?_store (arena : Arena) (id : String) (block : Option Block) (other : String) :
    (arena.store id block).get? other =
      if id = other then block.or (arena.get? other) else arena.get? other := by
  cases block with
  | none => simp [store]
  | some block => simp [store, get?_insert]

theorem Tidy.store {arena : Arena} (tidy : arena.Tidy) {id : String} {block : Option Block}
    (fits : ∀ new, block = some new → arena.get? id = none ∧ new.Tidy) :
    (arena.store id block).Tidy := by
  cases block with
  | none => exact tidy
  | some new => exact tidy.insert (fits new rfl).1 (fits new rfl).2

theorem Tidy.sortScripts {arena : Arena} (tidy : arena.Tidy) {κ : Type}
    (key : String → Block → κ) (le : κ → κ → Bool) : (arena.sortScripts key le).Tidy where
  blocks := tidy.blocks
  distinctScripts := (List.mergeSort_perm _ _).nodup_iff.mpr tidy.distinctScripts
  mem_scripts id := (List.mergeSort_perm _ _).mem_iff.trans (tidy.mem_scripts id)

end Arena

namespace Document

open Outcomes

section

variable {read : String × Json → Except BlocksFault (Option Block)}
  {entries : List (String × Json)} {start arena : Arena}

/-- Each entry is stored under its own id, and nothing else changes. -/
theorem get?_of_store (distinct : (entries.map Prod.fst).Nodup)
    (folded : entries.foldlM (fun arena entry => (read entry).map (arena.store entry.1)) start =
      .ok arena) :
    (∀ entry ∈ entries, ∃ block, read entry = .ok block ∧
      arena.get? entry.1 = block.or (start.get? entry.1)) ∧
    ∀ id, id ∉ entries.map Prod.fst → arena.get? id = start.get? id := by
  induction entries generalizing start with
  | nil =>
    cases folded
    simp
  | cons entry rest ih =>
    have apart := List.nodup_cons.mp distinct
    obtain ⟨next, first, later⟩ := foldlM_cons_eq_ok.mp folded
    cases outcome : read entry with
    | error fault =>
      rw [outcome] at first
      cases first
    | ok block =>
      rw [outcome] at first
      cases first
      obtain ⟨inside, outside⟩ := ih apart.2 later
      constructor
      · intro other member
        rcases List.mem_cons.mp member with rfl | older
        · refine ⟨block, outcome, ?_⟩
          rw [outside other.1 apart.1, Arena.get?_store, if_pos rfl]
        · obtain ⟨stored, same, lookup⟩ := inside other older
          have different : entry.1 ≠ other.1 := fun equal =>
            apart.1 (equal ▸ List.mem_map_of_mem older)
          rw [Arena.get?_store, if_neg different] at lookup
          exact ⟨stored, same, lookup⟩
      · intro id absent
        rw [List.map_cons, List.mem_cons, not_or] at absent
        rw [outside id absent.2, Arena.get?_store, if_neg (Ne.symm absent.1)]

theorem tidy_of_store (distinct : (entries.map Prod.fst).Nodup)
    (folded : entries.foldlM (fun arena entry => (read entry).map (arena.store entry.1)) start =
      .ok arena) (tidy : start.Tidy)
    (fits : ∀ entry ∈ entries, ∀ block, read entry = .ok (some block) →
      start.get? entry.1 = none ∧ block.Tidy) : arena.Tidy := by
  induction entries generalizing start with
  | nil =>
    cases folded
    exact tidy
  | cons entry rest ih =>
    have apart := List.nodup_cons.mp distinct
    obtain ⟨next, first, later⟩ := foldlM_cons_eq_ok.mp folded
    cases outcome : read entry with
    | error fault =>
      rw [outcome] at first
      cases first
    | ok block =>
      rw [outcome] at first
      cases first
      apply ih apart.2 later
      · apply tidy.store
        intro new isNew
        exact fits entry List.mem_cons_self new (by rw [outcome, isNew])
      · intro other member new same
        have different : entry.1 ≠ other.1 := fun equal =>
          apart.1 (equal ▸ List.mem_map_of_mem member)
        rw [Arena.get?_store, if_neg different]
        exact fits other (List.mem_cons_of_mem _ member) new same

end

/-- The block of an entry that is written in full; none of a literal. -/
def writtenBlock : String × Json → Except BlocksFault (Option Block)
  | (id, .object members) => (readBlock id (.object members)).map some
  | (_, .array _) => .ok none
  | (id, _) => .error (.invalidShape id)

/-- The block of a literal that stands on the workspace; none of any other entry. -/
def standingLiteral : String × Json → Except BlocksFault (Option Block)
  | (id, .array items) =>
    match literalBlock? items with
    | none => .error (.unknownPrimitive id)
    | some block => .ok (some {
        block with
        topLevel := true
        x := items[3]?.bind Json.binary64?
        y := items[4]?.bind Json.binary64? })
  | _ => .ok none

theorem storeBlock_eq :
    storeBlock = fun arena entry => (writtenBlock entry).map (arena.store entry.1) := by
  funext arena entry
  obtain ⟨id, value⟩ := entry
  cases value with
  | object members =>
    simp only [storeBlock, writtenBlock]
    cases readBlock id (.object members) <;> rfl
  | null | bool | number | text | array => rfl

theorem storeLiteral_eq :
    storeLiteral = fun arena entry => (standingLiteral entry).map (arena.store entry.1) := by
  funext arena entry
  obtain ⟨id, value⟩ := entry
  cases value with
  | array items =>
    simp only [storeLiteral, standingLiteral]
    cases literalBlock? items <;> rfl
  | null | bool | number | text | object => rfl

theorem name_fill (seat : Seat) (id : String) (input : Input) :
    (seat.fill id input).name = input.name := by
  cases seat <;> rfl

theorem name_readInput (name : String) (value : Json) : (readInput name value).name = name := by
  have folded {step : Input → Seat × Option Json → Input}
      (keeps : ∀ input value, (step input value).name = input.name)
      (values : List (Seat × Option Json)) (input : Input) :
      (values.foldl step input).name = input.name := by
    induction values generalizing input with
    | nil => rfl
    | cons value rest ih => rw [List.foldl_cons, ih, keeps]
  apply folded
  intro input value
  obtain ⟨seat, payload⟩ := value
  simp only
  split
  · exact name_fill _ _ _
  · rfl

theorem names_valueSlots (value : Json) :
    ((valueSlots value).map Prod.fst).Nodup ∧
      ∀ slot ∈ valueSlots value, Branch.ofName? slot.1 = none := by
  constructor
  · exact (Dict.nodup_keys _).sublist (List.filter_sublist.map Prod.fst)
  · intro slot member
    simpa using (List.mem_filter.mp member).2

theorem names_readInputs (value : Json) :
    ((valueSlots value).map fun slot => readInput slot.1 slot.2).map Input.name =
      (valueSlots value).map Prod.fst := by
  rw [List.map_map]
  exact List.map_congr_left fun slot _ => name_readInput slot.1 slot.2

theorem tidy_readBlock {id : String} {value : Json} {block : Block}
    (read : readBlock id value = .ok block) : block.Tidy := by
  rw [readBlock] at read
  split at read
  · cases read
  · cases read
    refine ⟨names_readInputs value ▸ (names_valueSlots value).1, ?_, ?_⟩
    · intro input member
      obtain ⟨slot, inside, rfl⟩ := List.mem_map.mp member
      rw [name_readInput]
      exact (names_valueSlots value).2 slot inside
    · intro below
      simp only at below
      simp [below]

theorem literalBlock?_bare {items : List Json} {block : Block}
    (read : literalBlock? items = some block) : block.inputs = [] ∧ block.topLevel = false ∧
      block.x = none ∧ block.y = none := by
  simp only [literalBlock?, Option.bind_eq_bind, Option.bind_eq_some_iff, Option.pure_def] at read
  obtain ⟨code, -, read⟩ := read
  split at read <;> cases read <;> exact ⟨rfl, rfl, rfl, rfl⟩

theorem tidy_standingLiteral {entry : String × Json} {block : Block}
    (read : standingLiteral entry = .ok (some block)) : block.Tidy := by
  obtain ⟨id, value⟩ := entry
  cases value with
  | array items =>
    simp only [standingLiteral] at read
    split at read
    · cases read
    · rename_i literal found
      cases read
      have bare := literalBlock?_bare found
      refine ⟨by simp [bare.1], by simp [bare.1], ?_⟩
      intro below
      cases below
  | null | bool | number | text | object => cases read

theorem tidy_writtenBlock {entry : String × Json} {block : Block}
    (read : writtenBlock entry = .ok (some block)) : block.Tidy := by
  obtain ⟨id, value⟩ := entry
  cases value with
  | object members =>
    simp only [writtenBlock] at read
    cases outcome : readBlock id (.object members) with
    | error fault =>
      rw [outcome] at read
      cases read
    | ok found =>
      rw [outcome] at read
      cases read
      exact tidy_readBlock outcome
  | null | bool | number | text | array => cases read

theorem isValue_of_pendingInputs {entry : String × Json} {pending : Pending}
    (member : pending ∈ pendingInputs entry) : Branch.ofName? pending.input = none := by
  obtain ⟨id, value⟩ := entry
  cases value with
  | object members =>
    obtain ⟨slot, listed, inside⟩ := List.mem_flatMap.mp member
    obtain ⟨⟨seat, payload⟩, -, found⟩ := List.mem_filterMap.mp inside
    have named : pending.input = slot.1 := by
      simp only at found
      split at found
      · cases found
        rfl
      · cases found
    rw [named]
    exact (names_valueSlots _).2 slot listed
  | null | bool | number | text | array => cases member

theorem tidy_storePending {arena next : Arena} {pending : Pending} (tidy : arena.Tidy)
    (isValue : Branch.ofName? pending.input = none)
    (stored : storePending arena pending = .ok next) : next.Tidy := by
  simp only [storePending] at stored
  split at stored
  · cases stored
  · rename_i literal found
    cases stored
    have bare := literalBlock?_bare found
    have blockTidy : ({ literal with parent := some pending.owner } : Block).Tidy :=
      ⟨by simp [bare.1], by simp [bare.1], fun _ => bare.2.2⟩
    have inserted := (tidy.freshId "prim").insert (arena.get?_freshId "prim") blockTidy
    apply inserted.modifyBlock
    intro owner lookup
    refine ⟨(inserted.blocks _ owner lookup).withInput isValue (name_fill _ _), ?_⟩
    exact Block.topLevel_of_frame (owner.frame_withInput _ _)

/-- What three passes over the entries store, before the scripts are sorted. -/
theorem readBlocks_eq_ok {blocks : Dict Json} {arena : Arena} : readBlocks blocks = .ok arena ↔
    ∃ written standing complete, blocks.entries.foldlM storeBlock {} = .ok written ∧
      blocks.entries.foldlM storeLiteral written = .ok standing ∧
      (blocks.entries.flatMap pendingInputs).foldlM storePending standing = .ok complete ∧
      arena = complete.sortScripts scriptKey scriptLe := by
  rw [readBlocks]
  cases first : blocks.entries.foldlM storeBlock {} with
  | error fault => simp [bind, Except.bind]
  | ok written =>
    cases second : blocks.entries.foldlM storeLiteral written with
    | error fault => simp [second, bind, Except.bind]
    | ok standing =>
      cases third : (blocks.entries.flatMap pendingInputs).foldlM storePending standing with
      | error fault => simp [second, third, bind, Except.bind]
      | ok complete => simp [second, third, bind, Except.bind, pure, Except.pure, eq_comm]

/-- Two passes leave a block that is written in full under its own id. -/
theorem get?_standing {blocks : Dict Json} {written standing : Arena}
    (first : blocks.entries.foldlM storeBlock {} = .ok written)
    (second : blocks.entries.foldlM storeLiteral written = .ok standing) {id : String}
    {members : List (String × Json)} (found : blocks.get? id = some (.object members)) :
    ∃ block, readBlock id (.object members) = .ok block ∧ standing.get? id = some block := by
  rw [storeBlock_eq] at first
  rw [storeLiteral_eq] at second
  have distinct := Entries.nodup_keys blocks.sorted
  have member := (Dict.get?_eq_some_iff _ _ _).mp found
  obtain ⟨own, outcome, lookup⟩ := (get?_of_store distinct first).1 _ member
  obtain ⟨literal, none, lookup'⟩ := (get?_of_store distinct second).1 _ member
  cases none
  cases read : readBlock id (.object members) with
  | error fault =>
    simp only [writtenBlock, read] at outcome
    cases outcome
  | ok block =>
    simp only [writtenBlock, read] at outcome
    cases outcome
    exact ⟨block, rfl, lookup'.trans lookup⟩

/-- The second pass leaves a literal on the workspace under its own id. -/
theorem get?_standing_literal {blocks : Dict Json} {written standing : Arena}
    (second : blocks.entries.foldlM storeLiteral written = .ok standing) {id : String}
    {items : List Json} (found : blocks.get? id = some (.array items)) :
    ∃ block, literalBlock? items = some block ∧ standing.get? id = some {
      block with
      topLevel := true
      x := items[3]?.bind Json.binary64?
      y := items[4]?.bind Json.binary64? } := by
  rw [storeLiteral_eq] at second
  have distinct := Entries.nodup_keys blocks.sorted
  have member := (Dict.get?_eq_some_iff _ _ _).mp found
  obtain ⟨literal, outcome, lookup⟩ := (get?_of_store distinct second).1 _ member
  simp only [standingLiteral] at outcome
  split at outcome
  · cases outcome
  · rename_i block prescribed
    cases outcome
    exact ⟨block, prescribed, lookup⟩

/-- Two passes store a block under every key, and no others. -/
theorem isSome_standing {blocks : Dict Json} {written standing : Arena}
    (first : blocks.entries.foldlM storeBlock {} = .ok written)
    (second : blocks.entries.foldlM storeLiteral written = .ok standing) (id : String) :
    (standing.get? id).isSome ↔ (blocks.get? id).isSome := by
  have distinct := Entries.nodup_keys blocks.sorted
  cases found : blocks.get? id with
  | none =>
    have absent : id ∉ blocks.entries.map Prod.fst := Entries.get?_eq_none_iff.mp found
    rw [storeBlock_eq] at first
    rw [storeLiteral_eq] at second
    rw [(get?_of_store distinct second).2 id absent, (get?_of_store distinct first).2 id absent]
    simp [Arena.get?]
  | some value =>
    cases value with
    | object members =>
      obtain ⟨block, -, lookup⟩ := get?_standing first second found
      simp [lookup]
    | array items =>
      obtain ⟨block, -, lookup⟩ := get?_standing_literal second found
      simp [lookup]
    | null | bool | number | text =>
      rw [storeBlock_eq] at first
      have member := (Dict.get?_eq_some_iff _ _ _).mp found
      obtain ⟨block, outcome, -⟩ := (get?_of_store distinct first).1 _ member
      cases outcome

theorem tidy_readBlocks {blocks : Dict Json} {arena : Arena}
    (read : readBlocks blocks = .ok arena) : arena.Tidy := by
  obtain ⟨written, standing, complete, first, second, third, rfl⟩ := readBlocks_eq_ok.mp read
  rw [storeBlock_eq] at first
  rw [storeLiteral_eq] at second
  have distinct := Entries.nodup_keys blocks.sorted
  have writtenTidy : written.Tidy := by
    apply tidy_of_store distinct first .empty
    intro entry _ block found
    exact ⟨rfl, tidy_writtenBlock found⟩
  have standingTidy : standing.Tidy := by
    apply tidy_of_store distinct second writtenTidy
    intro entry member block found
    refine ⟨?_, tidy_standingLiteral found⟩
    -- Only an array is a literal, and the first pass stores nothing under its id.
    obtain ⟨own, outcome, lookup⟩ := (get?_of_store distinct first).1 entry member
    obtain ⟨id, value⟩ := entry
    cases value with
    | array items =>
      cases outcome
      exact lookup
    | null | bool | number | text | object => cases found
  have completeTidy : complete.Tidy := by
    apply foldlM_invariant third standingTidy
    intro state pending member next tidy stored
    obtain ⟨entry, -, inside⟩ := List.mem_flatMap.mp member
    exact tidy_storePending tidy (isValue_of_pendingInputs inside) stored
  exact completeTidy.sortScripts scriptKey scriptLe

/-- The variable or list of one entry. -/
def declaration? (entry : String × Json) : Option Entity := do
  let items ← entry.2.items?
  let name ← items.head?.bind Json.text?
  return ⟨entry.1, name, items[1]?.getD .null⟩

def message? (entry : String × Json) : Option Entity := do
  let name ← entry.2.text?
  return ⟨entry.1, name, entry.2⟩

theorem readDeclarations_eq (value : Option Json) : readDeclarations value =
    (((value.bind Json.members?).getD ∅).entries).filterMap declaration? := rfl

theorem readBroadcasts_eq (value : Option Json) : readBroadcasts value =
    (((value.bind Json.members?).getD ∅).entries).filterMap message? := rfl

theorem declaration?_eq_some {entry : String × Json} {entity : Entity}
    (read : declaration? entry = some entity) : entity.id = entry.1 := by
  simp only [declaration?, Option.bind_eq_bind, Option.bind_eq_some_iff, Option.pure_def,
    Option.some.injEq] at read
  obtain ⟨items, -, name, -, rfl⟩ := read
  rfl

theorem message?_eq_some {entry : String × Json} {entity : Entity}
    (read : message? entry = some entity) :
    entity.id = entry.1 ∧ entity.value = .text entity.name := by
  obtain ⟨id, value⟩ := entry
  cases value with
  | text name =>
    cases read
    exact ⟨rfl, rfl⟩
  | null | bool | number | array | object => cases read

/-- Entities that are read from different keys have different ids. -/
theorem nodup_filterMap_id {read : String × Json → Option Entity} (dict : Dict Json)
    (keeps : ∀ entry entity, read entry = some entity → entity.id = entry.1) :
    ((dict.entries.filterMap read).map Entity.id).Nodup := by
  apply List.Pairwise.map (R := fun first second => first.id ≠ second.id)
  · exact fun _ _ => id
  · refine List.Pairwise.filterMap read ?_ dict.sorted
    intro first second less entity found other found' same
    rw [keeps first entity found, keeps second other found'] at same
    exact String.ne_of_lt less same

/-- A target is read when it has a name, a stage flag and readable blocks. -/
theorem readTarget_eq_ok {value : Json} {target : Target} : readTarget value = .ok target ↔
    ∃ name isStage blocks arena, value.textAt? "name" = some name ∧
      (value.get? "isStage").bind Json.bool? = some isStage ∧
      (value.get? "blocks" = none ∧ blocks = ∅ ∨
        (value.get? "blocks").bind Json.members? = some blocks) ∧
      readBlocks blocks = .ok arena ∧ target = {
        name := name
        isStage := isStage
        blocks := arena
        vars := readDeclarations (value.get? "variables")
        lists := readDeclarations (value.get? "lists")
        broadcasts := readBroadcasts (value.get? "broadcasts")
        costumes := readNames (value.get? "costumes")
        sounds := readNames (value.get? "sounds")
        rest := modelledMembers.foldl Dict.erase (value.members?.getD ∅) } := by
  rw [readTarget]
  cases named : value.textAt? "name" with
  | none => simp [throw, throwThe, MonadExceptOf.throw]
  | some name =>
    cases flagged : (value.get? "isStage").bind Json.bool? with
    | none => simp [throw, throwThe, MonadExceptOf.throw]
    | some isStage =>
      cases listed : value.get? "blocks" with
      | none =>
        cases stored : readBlocks ∅ with
        | error fault =>
          simp [stored, bind, Except.bind, pure, Except.pure, throw, throwThe, MonadExceptOf.throw]
        | ok arena => simp [stored, bind, Except.bind, pure, Except.pure, eq_comm]
      | some held =>
        cases shaped : held.members? with
        | none =>
          simp [shaped, bind, Except.bind, throw, throwThe, MonadExceptOf.throw]
        | some blocks =>
          cases stored : readBlocks blocks with
          | error fault =>
            simp [shaped, stored, bind, Except.bind, pure, Except.pure, throw, throwThe,
              MonadExceptOf.throw]
          | ok arena => simp [shaped, stored, bind, Except.bind, pure, Except.pure, eq_comm]

theorem storable_readTarget {value : Json} {target : Target}
    (read : readTarget value = .ok target) : target.Storable := by
  obtain ⟨name, isStage, blocks, arena, named, flagged, -, stored, rfl⟩ := readTarget_eq_ok.mp read
  obtain ⟨member, foundName, isText⟩ := Option.bind_eq_some_iff.mp named
  obtain ⟨flag, foundFlag, isBool⟩ := Option.bind_eq_some_iff.mp flagged
  have rest : ∀ key, (modelledMembers.foldl Dict.erase (value.members?.getD ∅)).get? key =
      if key ∈ modelledMembers then none else value.get? key := by
    intro key
    rw [Dict.get?_foldl_erase, Json.get?_eq]
  refine ⟨tidy_readBlocks stored, ⟨?_, ?_, ?_, ?_⟩, ⟨?_, ?_, ?_, ?_, ?_⟩⟩
  · exact nodup_filterMap_id _ fun _ _ => declaration?_eq_some
  · exact nodup_filterMap_id _ fun _ _ => declaration?_eq_some
  · exact nodup_filterMap_id _ fun _ _ found => (message?_eq_some found).1
  · intro message member
    obtain ⟨entry, -, found⟩ := List.mem_filterMap.mp member
    exact (message?_eq_some found).2
  · rw [rest, if_neg (by decide), foundName, Json.text?_eq_some isText]
  · rw [rest, if_neg (by decide), foundFlag, Json.bool?_eq_some isBool]
  · rw [rest, if_neg (by decide)]
  · rw [rest, if_neg (by decide)]
  · intro key modelled
    rw [rest, if_pos modelled]

theorem readProject_eq_ok {value : Json} {project : Project} : readProject value = .ok project ↔
    ∃ written targets, (value.get? "targets").bind Json.items? = some written ∧
      List.Forall₂ (fun target read => readTarget target = .ok read) written targets ∧
      project = Project.ofTargets targets ((value.members?.getD ∅).erase "targets") := by
  rw [readProject]
  cases listed : (value.get? "targets").bind Json.items? with
  | none => simp [throw, throwThe, MonadExceptOf.throw]
  | some written =>
    constructor
    · intro read
      simp only at read
      cases mapped : written.mapM readTarget with
      | error fault =>
        rw [mapped] at read
        cases read
      | ok targets =>
        rw [mapped] at read
        cases read
        exact ⟨written, targets, rfl, forall₂_of_mapM mapped, rfl⟩
    · rintro ⟨same, targets, found, each, rfl⟩
      obtain rfl := Option.some.inj found
      simp only
      rw [mapM_of_forall₂ each]
      rfl

theorem storable_readProject {value : Json} {project : Project}
    (read : readProject value = .ok project) : project.Storable := by
  obtain ⟨written, targets, -, each, rfl⟩ := readProject_eq_ok.mp read
  constructor
  · change ∀ target ∈ targets, target.Storable
    clear read
    induction each with
    | nil => simp
    | cons first _ ih => exact List.forall_mem_cons.mpr ⟨storable_readTarget first, ih⟩
  · exact (Dict.get?_erase _ _ _).trans (if_pos rfl)

end Document

end BlockGraph
