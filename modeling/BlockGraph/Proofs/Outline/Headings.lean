import BlockGraph.Proofs.Outline

/-!
Entries of an outline. Each entry that a walk adds shows what is stored in the arena, and the headers
among them are numbered one after the other.
-/

set_option autoImplicit false

namespace BlockGraph

/-- Block type and number of a header. -/
def Entry.heading? : Entry → Option (String × Nat)
  | .header index _ block _ _ => some (block.opcode, index)
  | _ => none

/-- An entry that shows what is stored. -/
def Entry.Stored (arena : Arena) : Entry → Prop
  | .separator => True
  | .header _ id block _ _ => arena.get? id = some block ∧ Outline.isStructural block = true
  | .field owner _ name stored _ =>
    ∃ block, arena.get? owner = some block ∧ block.fields.get? name = some stored
  | .input name _ => ∃ id block, arena.get? id = some block ∧ name ∈ Outline.inputNames block
  | .literal name id shadow _ =>
    (∃ id block, arena.get? id = some block ∧ name ∈ Outline.inputNames block) ∧
      arena.get? id = some shadow ∧ Catalog.kind shadow.opcode = .shadow
  | .branch _ _ => True

namespace Outline

/-- A task about an input of a stored block. -/
def Task.Stored (arena : Arena) : Task → Prop
  | .input owner block name _ => arena.get? owner = some block ∧ name ∈ inputNames block
  | _ => True

variable {arena : Arena} {visited : List String} {task : Task} {next : Step}

theorem stored_fieldEntries {id : String} {block : Block} (found : arena.get? id = some block)
    (depth : Nat) : ∀ entry ∈ fieldEntries id block depth, entry.Stored arena := by
  intro entry member
  obtain ⟨⟨name, field⟩, inside, rfl⟩ := List.mem_map.mp member
  exact ⟨block, found, (Dict.get?_eq_some_iff _ _ _).mpr inside⟩

theorem stored_innerTasks {id : String} {block : Block} (found : arena.get? id = some block)
    (depth : Nat) : ∀ task ∈ innerTasks id block depth, task.Stored arena := by
  intro task member
  rw [innerTasks, List.mem_append, List.mem_append] at member
  rcases member with (member | member) | member
  · obtain ⟨name, inside, rfl⟩ := List.mem_map.mp member
    exact ⟨found, inside⟩
  · obtain ⟨branch, -, rfl⟩ := List.mem_map.mp member
    trivial
  · obtain ⟨below, -, rfl⟩ := List.mem_map.mp member
    trivial

/-- A step shows what is stored, and leaves tasks about what is stored. -/
theorem stored_of_taken (stored : task.Stored arena) (taken : Taken arena visited task next) :
    (∀ entry ∈ next.entries, entry.Stored arena) ∧ ∀ task ∈ next.tasks, task.Stored arena := by
  cases taken with
  | script found structural =>
    constructor
    · intro entry member
      simp only at member
      split at member <;> simp only [List.not_mem_nil, List.mem_singleton] at member
      subst member
      trivial
    · simp [Task.Stored]
  | sequence found structural isNew =>
    refine ⟨?_, stored_innerTasks found _⟩
    intro entry member
    rcases List.mem_cons.mp member with rfl | field
    · exact ⟨found, structural⟩
    · exact stored_fieldEntries found _ entry field
  | emptyInput absent => simpa [Entry.Stored] using ⟨_, _, stored⟩
  | nested plugged found kind => simpa [Entry.Stored, Task.Stored] using ⟨_, _, stored⟩
  | literal plugged found kind => simpa [Entry.Stored, found, kind] using ⟨_, _, stored⟩
  | outOfScope plugged found kind => simpa [Entry.Stored] using ⟨_, _, stored⟩
  | branch => simp [Entry.Stored, Task.Stored]
  | hiddenScript | hiddenSequence => simp

/-- A walk shows what is stored. -/
theorem stored_of_walk {agenda : List Task} {entries : List Entry}
    (stored : ∀ task ∈ agenda, task.Stored arena)
    (walked : walk arena agenda visited = .ok entries) : ∀ entry ∈ entries, entry.Stored arena := by
  revert stored
  refine walk_induction (motive := fun agenda _ entries =>
    (∀ task ∈ agenda, task.Stored arena) → ∀ entry ∈ entries, entry.Stored arena) ?_ ?_ walked
  · intro visited stored entry member
    cases member
  · intro visited task rest next later taken ih stored
    have first := stored_of_taken (stored task List.mem_cons_self) taken
    have remaining : ∀ task ∈ next.tasks ++ rest, task.Stored arena := by
      intro other member
      rcases List.mem_append.mp member with new | old
      · exact first.2 other new
      · exact stored other (List.mem_cons_of_mem _ old)
    intro entry member
    rcases List.mem_append.mp member with now | after
    · exact first.1 entry now
    · exact ih remaining entry after

theorem stored_of_ofArena {entries : List Entry} (outlined : ofArena arena = .ok entries) :
    ∀ entry ∈ entries, entry.Stored arena := by
  refine stored_of_walk ?_ outlined
  intro task member
  obtain ⟨root, -, rfl⟩ := List.mem_map.mp member
  trivial

theorem heading?_fieldEntries (id : String) (block : Block) (depth : Nat) :
    (fieldEntries id block depth).filterMap Entry.heading? = [] := by
  rw [fieldEntries, List.filterMap_map]
  exact List.filterMap_eq_nil_iff.mpr fun _ _ => rfl

/-- A step numbers the block that it shows with the next number. -/
theorem headings_of_taken (taken : Taken arena visited task next) :
    ∃ opcodes : List String, opcodes.length = next.shown.toList.length ∧
      next.entries.filterMap Entry.heading? = opcodes.zipIdx (visited.length + 1) := by
  cases taken with
  | script found structural =>
    refine ⟨[], rfl, ?_⟩
    simp only
    split <;> rfl
  | @sequence id depth top block found structural isNew =>
    refine ⟨[block.opcode], rfl, ?_⟩
    rw [List.filterMap_cons, heading?_fieldEntries]
    rfl
  | _ => exact ⟨[], rfl, rfl⟩

/-- A walk numbers its headers one after the other. -/
theorem headings_of_walk {agenda : List Task} {entries : List Entry}
    (walked : walk arena agenda visited = .ok entries) :
    ∃ opcodes : List String,
      entries.filterMap Entry.heading? = opcodes.zipIdx (visited.length + 1) := by
  refine walk_induction (motive := fun _ visited entries => ∃ opcodes : List String,
    entries.filterMap Entry.heading? = opcodes.zipIdx (visited.length + 1)) ?_ ?_ walked
  · intro visited
    exact ⟨[], rfl⟩
  · rintro visited task rest next later taken ⟨others, following⟩
    obtain ⟨first, length, headings⟩ := headings_of_taken taken
    have start : (next.shown.toList ++ visited).length + 1 = visited.length + 1 + first.length := by
      rw [List.length_append, length]
      omega
    refine ⟨first ++ others, ?_⟩
    rw [List.filterMap_append, headings, following, start, List.zipIdx_append]

/-- The headings of an outline are the records with their numbers. -/
theorem headings_of_ofArena {entries : List Entry} (outlined : ofArena arena = .ok entries)
    (editor : Editor) : entries.filterMap Entry.heading? =
      ((entries.filterMap (record? editor)).zipIdx 1).map
        fun (record, index) => (record.block.opcode, index) := by
  obtain ⟨opcodes, headings⟩ := headings_of_walk outlined
  have opcode : (entries.filterMap (record? editor)).map (fun record => record.block.opcode) =
      (entries.filterMap Entry.heading?).map Prod.fst := by
    rw [List.map_filterMap, List.map_filterMap]
    congr
    funext entry
    cases entry <;> rfl
  rw [headings, List.zipIdx_map_fst] at opcode
  rw [headings, ← opcode, List.zipIdx_map]
  rfl

end Outline

end BlockGraph
