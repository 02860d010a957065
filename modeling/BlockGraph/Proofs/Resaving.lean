import BlockGraph.Proofs.Expansion
import BlockGraph.Proofs.Reloading

/-!
What a document keeps when it is read and written again. Projects and targets carry along the members
that they do not model. An entry of a target is made anew from what is modelled of it: a variable or a
list from its name and its first value, a message from its name, and a block from eight of its members
and its type.
-/

set_option autoImplicit false

namespace BlockGraph.Document

open Outcomes

/-- An entry of one of the tables of a target. -/
def listed? (target : Json) (table id : String) : Option Json :=
  (target.get? table).bind (·.get? id)

/-- Members of a block that are the same after a save, inputs and place aside. -/
inductive Kept (opcode : String) : String → Json → Prop
  | opcode (value : Json) : Kept opcode "opcode" value
  | mutation (value : Json) : Kept opcode "mutation" value
  | next (id : Option String) : Kept opcode "next" (.ofText? id)
  | parent (id : Option String) : Kept opcode "parent" (.ofText? id)
  | fields (fields : Dict Field) : Kept opcode "fields"
      (.ofDict (fields.map fun _ field => .array [.text field.value, .ofText? field.id]))
  | topLevel (flag : Bool) : Kept opcode "topLevel" (.bool flag)
  | shadow : Kept opcode "shadow" (.bool (Catalog.kind opcode = .shadow))

/-- How a target that was read and written again compares with the one that was read. -/
structure Resaved (source saved : Json) : Prop where
  others : ∀ key, key ∉ modelledMembers → saved.get? key = source.get? key
  vars : ∀ id entry, listed? source "variables" id = some entry →
    (listed? saved "variables" id = some entry ↔ ∃ name value, entry = .array [.text name, value])
  lists : ∀ id entry, listed? source "lists" id = some entry →
    (listed? saved "lists" id = some entry ↔
      ∃ name items, entry = .array [.text name, .array items])
  broadcasts : ∀ id entry, listed? source "broadcasts" id = some entry →
    (listed? saved "broadcasts" id = some entry ↔ ∃ name, entry = .text name)
  blocks : ∀ id members, listed? source "blocks" id = some (.object members) →
    ∃ opcode again, (Json.object members).textAt? "opcode" = some opcode ∧
      listed? saved "blocks" id = some again ∧
      ∀ key value, (Json.object members).get? key = some value → key ∉ ["inputs", "x", "y"] →
        (again.get? key = some value ↔ Kept opcode key value)

section

variable {blocks : Dict Json} {arena : Arena} {id : String} {members : List (String × Json)}

/-- A block is stored, with whatever inputs. -/
def StoredAs (id : String) (block : Block) (arena : Arena) : Prop :=
  ∃ inputs, arena.get? id = some { block with inputs := inputs }

/-- A block that is written in full is stored as it is read, with its inputs filled. -/
theorem get?_readBlocks (read : readBlocks blocks = .ok arena)
    (found : blocks.get? id = some (.object members)) :
    ∃ block, readBlock id (.object members) = .ok block ∧ StoredAs id block arena := by
  obtain ⟨labels, expanded⟩ := exists_expanded read
  obtain ⟨block, isBlock, lookup⟩ := expanded.written id members found
  exact ⟨block, isBlock, _, lookup⟩

/-- A block has no members but those that are modelled. -/
theorem get?_writeBlock_other {block : Block} {key : String}
    (other : key ∉ ["opcode", "next", "parent", "inputs", "fields", "shadow", "topLevel", "x", "y",
      "mutation"]) : (writeBlock block).get? key = none := by
  have keys : (writtenMembers block).map Prod.fst ⊆ ["opcode", "next", "parent", "inputs", "fields",
      "shadow", "topLevel", "x", "y", "mutation"] := by
    rw [writtenMembers]
    cases block.topLevel <;> cases block.mutation <;> simp
  rw [get?_writeBlock]
  exact Entries.get?_eq_none_iff.mpr fun member => other (keys member)

/-- A member is the same after a save when it has the form that is written, and only then. -/
theorem get?_resaved {value : Json} {block : Block} (read : readBlock id value = .ok block)
    (inputs : List Input) {key : String} {held : Json} (found : value.get? key = some held)
    (linkless : key ∉ ["inputs", "x", "y"]) :
    (writeBlock { block with inputs := inputs }).get? key = some held ↔
      Kept block.opcode key held := by
  rw [readBlock] at read
  split at read
  · cases read
  · rename_i opcode isOpcode
    cases read
    constructor
    · intro same
      have known : key ∈ ["opcode", "next", "parent", "inputs", "fields", "shadow", "topLevel", "x",
          "y", "mutation"] := by
        by_contra other
        rw [get?_writeBlock_other other] at same
        cases same
      simp only [List.mem_cons, List.not_mem_nil, or_false] at known linkless
      rcases known with rfl | rfl | rfl | rfl | rfl | rfl | rfl | rfl | rfl | rfl
      · exact .opcode held
      · rw [get?_writeBlock] at same
        cases same
        exact .next _
      · rw [get?_writeBlock] at same
        cases same
        exact .parent _
      · simp at linkless
      · rw [get?_writeBlock] at same
        cases same
        exact .fields _
      · rw [get?_writeBlock] at same
        cases same
        exact .shadow
      · rw [get?_writeBlock] at same
        cases same
        exact .topLevel _
      · simp at linkless
      · simp at linkless
      · exact .mutation held
    · intro kept
      cases kept with
      | opcode held =>
        rw [Json.textAt?, found] at isOpcode
        rw [get?_writeBlock, Json.text?_eq_some isOpcode]
        rfl
      | mutation held =>
        rw [mutation_writeBlock]
        exact found
      | next id =>
        rw [get?_writeBlock]
        simp only [Json.textAt?, found]
        cases id <;> rfl
      | parent id =>
        rw [get?_writeBlock]
        simp only [Json.textAt?, found]
        cases id <;> rfl
      | fields fields =>
        rw [get?_writeBlock]
        simp only [found, Option.bind_some, Json.members?_ofDict, Option.getD_some,
          readFields_writeFields]
        rfl
      | topLevel flag =>
        rw [get?_writeBlock]
        simp only [found]
        rfl
      | shadow =>
        rw [get?_writeBlock]
        rfl

end

theorem get?_of_listed? {source : Json} {table id : String} {entry : Json}
    (found : listed? source table id = some entry) :
    (((source.get? table).bind Json.members?).getD ∅).get? id = some entry := by
  obtain ⟨held, isTable, found⟩ := Option.bind_eq_some_iff.mp found
  rw [isTable, Option.bind_some, ← Json.get?_eq]
  exact found

/-- An entry that is read and written again is the same if it has the form that is written. -/
theorem listed?_rewritten {source saved : Json} {table : String}
    {read : String × Json → Option Entity} {write : Entity → Json}
    (keeps : ∀ entry entity, read entry = some entity → entity.id = entry.1)
    (written : saved.get? table = some (.ofMembers
      (((((source.get? table).bind Json.members?).getD ∅).entries.filterMap read).map fun entity =>
        (entity.id, write entity))))
    {id : String} {entry : Json} (found : listed? source table id = some entry) :
    listed? saved table id = some entry ↔
      ∃ entity, read (id, entry) = some entity ∧ write entity = entry := by
  have held := get?_of_listed? found
  rw [listed?, written, Option.bind_some]
  generalize ((source.get? table).bind Json.members?).getD ∅ = dict at held ⊢
  have keys : ((dict.entries.filterMap read).map fun entity => (entity.id, write entity)).map
      Prod.fst = (dict.entries.filterMap read).map Entity.id := by
    rw [List.map_map]
    rfl
  have distinct := nodup_filterMap_id dict keeps
  rw [← keys] at distinct
  rw [Json.get?_ofMembers, Dict.get?_ofList_eq_some_iff distinct, List.mem_map]
  constructor
  · rintro ⟨entity, member, same⟩
    obtain ⟨⟨key, value⟩, inside, isEntity⟩ := List.mem_filterMap.mp member
    have own : entity.id = key := keeps _ _ isEntity
    cases same
    subst own
    obtain rfl := Option.some.inj (((Dict.get?_eq_some_iff _ _ _).mpr inside).symm.trans held)
    exact ⟨entity, isEntity, rfl⟩
  · rintro ⟨entity, isEntity, same⟩
    refine ⟨entity, List.mem_filterMap.mpr ⟨(id, entry), ?_, isEntity⟩, ?_⟩
    · exact (Dict.get?_eq_some_iff _ _ _).mp held
    · rw [keeps _ _ isEntity, same]

section

variable {source : Json} {target : Target} (read : readTarget source = .ok target)
include read

theorem resaved_others (key : String) (other : key ∉ modelledMembers) :
    (writeTarget target).get? key = source.get? key := by
  have carried := rest_writeTarget (storable_readTarget read).carried
  obtain ⟨name, isStage, blocks, arena, -, -, -, -, rfl⟩ := readTarget_eq_ok.mp read
  have same := congrArg (Dict.get? · key) carried
  simpa only [Dict.get?_foldl_erase, if_neg other, ← Json.get?_eq] using same

theorem resaved_vars (id : String) (entry : Json)
    (found : listed? source "variables" id = some entry) :
    listed? (writeTarget target) "variables" id = some entry ↔
      ∃ name value, entry = .array [.text name, value] := by
  have written : (writeTarget target).get? "variables" = some (writeVariables target.vars) :=
    get?_writeTarget ..
  have held : target.vars = readDeclarations (source.get? "variables") := by
    obtain ⟨name, isStage, blocks, arena, -, -, -, -, rfl⟩ := readTarget_eq_ok.mp read
    rfl
  rw [writeVariables, held, readDeclarations_eq] at written
  rw [listed?_rewritten (fun _ _ => declaration?_eq_some) written found]
  constructor
  · rintro ⟨entity, -, rfl⟩
    exact ⟨entity.name, entity.value, rfl⟩
  · rintro ⟨name, value, rfl⟩
    exact ⟨⟨id, name, value⟩, rfl, rfl⟩

theorem resaved_lists (id : String) (entry : Json)
    (found : listed? source "lists" id = some entry) :
    listed? (writeTarget target) "lists" id = some entry ↔
      ∃ name items, entry = .array [.text name, .array items] := by
  have written : (writeTarget target).get? "lists" = some (writeLists target.lists) :=
    get?_writeTarget ..
  have held : target.lists = readDeclarations (source.get? "lists") := by
    obtain ⟨name, isStage, blocks, arena, -, -, -, -, rfl⟩ := readTarget_eq_ok.mp read
    rfl
  rw [writeLists, held, readDeclarations_eq] at written
  rw [listed?_rewritten (fun _ _ => declaration?_eq_some) written found]
  constructor
  · rintro ⟨entity, -, rfl⟩
    exact ⟨entity.name, entity.value.items?.getD [], rfl⟩
  · rintro ⟨name, items, rfl⟩
    exact ⟨⟨id, name, .array items⟩, rfl, rfl⟩

theorem resaved_broadcasts (id : String) (entry : Json)
    (found : listed? source "broadcasts" id = some entry) :
    listed? (writeTarget target) "broadcasts" id = some entry ↔ ∃ name, entry = .text name := by
  have written : (writeTarget target).get? "broadcasts" = some (writeBroadcasts target.broadcasts) :=
    get?_writeTarget ..
  have held : target.broadcasts = readBroadcasts (source.get? "broadcasts") := by
    obtain ⟨name, isStage, blocks, arena, -, -, -, -, rfl⟩ := readTarget_eq_ok.mp read
    rfl
  rw [writeBroadcasts, held, readBroadcasts_eq] at written
  rw [listed?_rewritten (fun _ _ found => (message?_eq_some found).1) written found]
  constructor
  · rintro ⟨entity, -, rfl⟩
    exact ⟨entity.name, rfl⟩
  · rintro ⟨name, rfl⟩
    exact ⟨⟨id, name, .text name⟩, rfl, rfl⟩

theorem resaved_blocks (id : String) (members : List (String × Json))
    (found : listed? source "blocks" id = some (.object members)) :
    ∃ opcode again, (Json.object members).textAt? "opcode" = some opcode ∧
      listed? (writeTarget target) "blocks" id = some again ∧
      ∀ key value, (Json.object members).get? key = some value → key ∉ ["inputs", "x", "y"] →
        (again.get? key = some value ↔ Kept opcode key value) := by
  have saved : listed? (writeTarget target) "blocks" id =
      (target.blocks.get? id).map writeBlock := by
    rw [listed?, get?_writeTarget]
    exact (Json.get?_ofDict _ _).trans (Dict.get?_map _ _ _)
  obtain ⟨name, isStage, blocks, arena, -, -, held, stored, rfl⟩ := readTarget_eq_ok.mp read
  have own : blocks.get? id = some (.object members) := by
    have found := get?_of_listed? found
    rcases held with ⟨absent, rfl⟩ | same
    · rw [absent] at found
      cases found
    · rwa [same] at found
  obtain ⟨block, isBlock, inputs, lookup⟩ := get?_readBlocks stored own
  have opcode : (Json.object members).textAt? "opcode" = some block.opcode := by
    unfold readBlock at isBlock
    split at isBlock
    · cases isBlock
    · rename_i opcode found
      cases isBlock
      exact found
  refine ⟨block.opcode, writeBlock { block with inputs := inputs }, opcode, ?_, ?_⟩
  · rw [saved, lookup]
    rfl
  · intro key value found linkless
    exact get?_resaved isBlock inputs found linkless

theorem resaved_target : Resaved source (writeTarget target) where
  others := resaved_others read
  vars := resaved_vars read
  lists := resaved_lists read
  broadcasts := resaved_broadcasts read
  blocks := resaved_blocks read

end

/-- A save keeps every member that projects and targets do not model. It keeps a variable that is a
name with one value, a list that is a name with its items, a message that is a name, and of a block
those members that have the form in which they are written; it keeps no others. -/
theorem resaved_readProject {value : Json} {project : Project}
    (read : readProject value = .ok project) :
    (∀ key, key ≠ "targets" → (writeProject project).get? key = value.get? key) ∧
      ∃ sources saved, (value.get? "targets").bind Json.items? = some sources ∧
        (writeProject project).get? "targets" = some (.array saved) ∧
        List.Forall₂ Resaved sources saved := by
  obtain ⟨sources, targets, listed, each, rfl⟩ := readProject_eq_ok.mp read
  constructor
  · intro key other
    rw [writeProject, Json.get?_ofDict, Dict.get?_insert, if_neg (Ne.symm other)]
    change ((value.members?.getD ∅).erase "targets").get? key = _
    rw [Dict.get?_erase, if_neg (Ne.symm other), ← Json.get?_eq]
  · refine ⟨sources, targets.map writeTarget, listed, ?_, ?_⟩
    · rw [writeProject, Json.get?_ofDict, Dict.get?_insert, if_pos rfl]
      rfl
    · rw [List.forall₂_map_right_iff]
      exact each.imp fun _ _ read => resaved_target read

/-- One sprite with a variable, a block, and a menu of a type that is not in the catalog. -/
def drumTarget (score : List Json) (comment : List (String × Json)) (isShadow : Bool) : Json :=
  .ofMembers
    [("name", .text "Cat"), ("isStage", .bool false),
      ("variables", .ofMembers [("v", .array (.text "score" :: score))]),
      ("comments", .ofMembers [("c", .ofMembers [("blockId", .text "a"), ("text", .text "loud")])]),
      ("blocks", .ofMembers
        [("a", .ofMembers (
          [("opcode", .text "music_playDrumForBeats"), ("next", .null), ("parent", .null),
            ("inputs", .ofMembers [("DRUM", .array [.ofNat 1, .text "m"])]),
            ("fields", .ofMembers []), ("shadow", .bool false), ("topLevel", .bool true),
            ("x", .ofNat 0), ("y", .ofNat 0)] ++ comment)),
          ("m", .ofMembers
            [("opcode", .text "music_menu_DRUM"), ("next", .null), ("parent", .text "a"),
              ("inputs", .ofMembers []),
              ("fields", .ofMembers [("DRUM", .array [.text "1", .null])]),
              ("shadow", .bool isShadow), ("topLevel", .bool false)])])]

def drums : Target where
  name := "Cat"
  isStage := false
  vars := [⟨"v", "score", .ofNat 0⟩]
  blocks :=
    { blocks := .ofList
        [("a", {
            opcode := "music_playDrumForBeats"
            inputs := [⟨"DRUM", some "m", some "m"⟩]
            topLevel := true
            x := some Binary64.zero
            y := some Binary64.zero }),
          ("m", {
            opcode := "music_menu_DRUM"
            fields := .ofList [("DRUM", .plain "1")]
            parent := some "a" })]
      scripts := ["a"] }
  rest := .ofList
    [("name", .text "Cat"), ("isStage", .bool false),
      ("comments", .ofMembers [("c", .ofMembers [("blockId", .text "a"), ("text", .text "loud")])])]

/-- Comments are carried along, and a variable that is a name with one value is kept. -/
theorem resaved_readProject_drums :
    readProject (.ofMembers [("targets", .array [drumTarget [.ofNat 0] [] false])]) =
        .ok (.ofTargets [drums] ∅) ∧
      ∃ saved, (writeProject (.ofTargets [drums] ∅)).get? "targets" = some (.array [saved]) ∧
        saved.get? "comments" = (drumTarget [.ofNat 0] [] false).get? "comments" ∧
        listed? saved "variables" "v" = some (.array [.text "score", .ofNat 0]) := by
  have read : readProject (.ofMembers [("targets", .array [drumTarget [.ofNat 0] [] false])]) =
      .ok (.ofTargets [drums] ∅) := by
    decide +kernel
  obtain ⟨-, sources, saved, listed, written, each⟩ := resaved_readProject read
  obtain rfl : sources = [drumTarget [.ofNat 0] [] false] := Option.some.inj (listed.symm.trans rfl)
  cases each with
  | @cons _ saved _ _ same rest =>
    cases rest
    refine ⟨read, saved, written, same.others "comments" (by decide), ?_⟩
    exact (same.vars "v" _ (by decide +kernel)).mpr ⟨"score", .ofNat 0, rfl⟩

/-- The same sprite with a cloud variable and a comment that its block names. -/
def loudTarget : Json :=
  drumTarget [.ofNat 0, .bool true] [("comment", .text "c")] true

/-- A save drops the comment of a block and the mark of a cloud variable, and takes a menu of an
unknown type for no shadow. -/
theorem save_drops_members :
    readProject (.ofMembers [("targets", .array [loudTarget])]) = .ok (.ofTargets [drums] ∅) ∧
      (writeProject (.ofTargets [drums] ∅)).get? "targets" = some (.array [writeTarget drums]) ∧
      listed? loudTarget "variables" "v" = some (.array [.text "score", .ofNat 0, .bool true]) ∧
      listed? (writeTarget drums) "variables" "v" = some (.array [.text "score", .ofNat 0]) ∧
      (listed? loudTarget "blocks" "a").map (·.get? "comment") = some (some (.text "c")) ∧
      (listed? (writeTarget drums) "blocks" "a").map (·.get? "comment") = some none ∧
      (listed? loudTarget "blocks" "m").map (·.get? "shadow") = some (some (.bool true)) ∧
      (listed? (writeTarget drums) "blocks" "m").map (·.get? "shadow") =
        some (some (.bool false)) := by
  decide +kernel

end BlockGraph.Document
