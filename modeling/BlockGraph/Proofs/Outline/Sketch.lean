import BlockGraph.Outline.Listing

/-!
What the lines of an outline depend on. A sketch of a block keeps its type, its fields, and what is
plugged in, nested and placed below it; shadows that are hidden, the parent, the place and the data of
custom blocks are left out. A walk through the sketch of an arena takes the same steps as a walk
through the arena, so arenas with one sketch have the same lines. A walk that takes few steps can be
evaluated with a bound on them.
-/

set_option autoImplicit false

namespace BlockGraph

def Input.sketch (input : Input) : Input :=
  { input with shadow := none }

def Block.sketch (block : Block) : Block where
  opcode := block.opcode
  fields := block.fields
  inputs := block.inputs.map Input.sketch
  branches := block.branches
  next := block.next

def Arena.sketch (arena : Arena) : Arena where
  blocks := arena.blocks.map fun _ block => block.sketch
  scripts := arena.scripts

def Entry.sketch : Entry → Entry
  | .header index id block depth top => .header index id block.sketch depth top
  | .literal name id shadow depth => .literal name id shadow.sketch depth
  | other => other

theorem Arena.get?_sketch (arena : Arena) (id : String) :
    arena.sketch.get? id = (arena.get? id).map Block.sketch :=
  Dict.get?_map _ _ id

theorem Block.plugged?_sketch (block : Block) (name : String) :
    block.sketch.plugged? name = block.plugged? name := by
  simp only [plugged?, input?, sketch, List.find?_map, Option.bind_map]
  rfl

namespace Outline

def Task.sketch : Task → Task
  | .input owner block name depth => .input owner block.sketch name depth
  | other => other

def Step.sketch (step : Step) : Step where
  entries := step.entries.map Entry.sketch
  tasks := step.tasks.map Task.sketch
  shown := step.shown

theorem inputNames_sketch (block : Block) : inputNames block.sketch = inputNames block := by
  have names : block.sketch.inputs.map Input.name = block.inputs.map Input.name := by
    simp only [Block.sketch, List.map_map]
    rfl
  simp only [inputNames, names]
  rfl

theorem innerTasks_sketch (id : String) (block : Block) (depth : Nat) :
    innerTasks id block.sketch depth = (innerTasks id block depth).map Task.sketch := by
  simp only [innerTasks, inputNames_sketch, List.map_append, List.map_map]
  rfl

theorem fieldEntries_sketch (id : String) (block : Block) (depth : Nat) :
    fieldEntries id block.sketch depth = (fieldEntries id block depth).map Entry.sketch := by
  simp only [fieldEntries, List.map_map]
  rfl

/-- A step through the sketch of an arena is the sketch of a step through the arena. -/
theorem step_sketch (arena : Arena) (visited : List String) (task : Task) :
    step arena.sketch visited task.sketch = (step arena visited task).map Step.sketch := by
  cases task with
  | script root =>
    simp only [Task.sketch, step, Arena.get?_sketch]
    cases arena.get? root with
    | none => rfl
    | some block =>
      change (if isStructural block then _ else _) = Except.map _ (if isStructural block then _ else _)
      cases isStructural block
      · rfl
      · cases visited <;> rfl
  | sequence id depth top =>
    simp only [Task.sketch, step, Arena.get?_sketch]
    cases arena.get? id with
    | none => rfl
    | some block =>
      change (if isStructural block then _ else _) = Except.map _ (if isStructural block then _ else _)
      cases isStructural block
      · rfl
      · by_cases old : id ∈ visited
        · simp only [if_pos old]
          rfl
        · simp only [if_neg old, innerTasks_sketch, fieldEntries_sketch]
          rfl
  | input owner block name depth =>
    simp only [Task.sketch, step, inputStep, Block.plugged?_sketch]
    cases block.plugged? name with
    | none => rfl
    | some child =>
      simp only [Arena.get?_sketch]
      cases arena.get? child with
      | none => rfl
      | some plugged =>
        simp only [Option.map_some, Block.sketch]
        cases Catalog.kind plugged.opcode <;> rfl
  | branch branch head depth => cases head <;> rfl

theorem walk_sketch (arena : Arena) (agenda : List Task) (visited : List String) :
    walk arena.sketch (agenda.map Task.sketch) visited =
      (walk arena agenda visited).map (List.map Entry.sketch) := by
  fun_induction walk arena agenda visited with
  | case1 visited =>
    rw [List.map_nil, walk]
    rfl
  | case2 visited task rest damage failed =>
    have sketched := step_sketch arena visited task
    rw [failed] at sketched
    rw [List.map_cons, walk]
    split
    · rename_i same
      cases sketched.symm.trans same
      rfl
    · rename_i same
      cases sketched.symm.trans same
  | case3 visited task rest next taken ih =>
    have sketched := step_sketch arena visited task
    rw [taken] at sketched
    rw [List.map_cons, walk]
    split
    · rename_i same
      cases sketched.symm.trans same
    · rename_i same
      cases sketched.symm.trans same
      rw [List.map_append] at ih
      simp only [Step.sketch, ih]
      cases walk arena (next.tasks ++ rest) (next.shown.toList ++ visited) with
      | error damage => rfl
      | ok later => simp [Except.map, bind, Except.bind, pure, Except.pure]

theorem ofArena_sketch (arena : Arena) :
    ofArena arena.sketch = (ofArena arena).map (List.map Entry.sketch) := by
  have scripts : arena.sketch.scripts.map Task.script =
      (arena.scripts.map Task.script).map Task.sketch := by
    rw [List.map_map]
    rfl
  rw [ofArena, ofArena, scripts, walk_sketch]

/-- A walk of at most `steps` steps. -/
def walkWithin (arena : Arena) : Nat → List Task → List String → Option (List Entry)
  | _, [], _ => some []
  | 0, _ :: _, _ => none
  | steps + 1, task :: rest, visited =>
    match step arena visited task with
    | .error _ => none
    | .ok next =>
      (walkWithin arena steps (next.tasks ++ rest) (next.shown.toList ++ visited)).map
        (next.entries ++ ·)

theorem walk_of_walkWithin {arena : Arena} {steps : Nat} {agenda : List Task}
    {visited : List String} {entries : List Entry}
    (walked : walkWithin arena steps agenda visited = some entries) :
    walk arena agenda visited = .ok entries := by
  fun_induction walkWithin arena steps agenda visited generalizing entries with
  | case1 =>
    cases walked
    rw [walk]
  | case2 => cases walked
  | case3 => cases walked
  | case4 steps task rest visited next taken ih =>
    obtain ⟨later, found, rfl⟩ := Option.map_eq_some_iff.mp walked
    rw [walk]
    split
    · rename_i failed
      cases taken.symm.trans failed
    · rename_i same
      cases taken.symm.trans same
      rw [ih found]
      rfl

theorem plainLine_sketch (entry : Entry) : plainLine entry.sketch = plainLine entry := by
  cases entry <;> rfl

/-- Without choices and ids, a line is the plain one. -/
theorem line_plain (context : ChoiceContext) (entry : Entry) :
    line context { withIds := false, withChoices := false } entry = plainLine entry := by
  cases entry <;> simp [line, idSuffix, choiceSuffix]

end Outline

namespace Project

variable {project : Project} {index : Nat} {target : Target}

/-- The text of a plain listing. -/
theorem pseudocode_listing (required : project.requireEditing = .ok (index, target))
    (editor : Editor) :
    (project.listing editor { withIds := false, withChoices := false }).map Listing.pseudocode =
      (Damage.orFault (Outline.ofArena target.blocks)).map fun entries =>
        "\n".intercalate (entries.map Outline.plainLine) := by
  cases walked : Outline.ofArena target.blocks with
  | error damage =>
    simp only [listing, required, walked, Damage.orFault, bind, Except.bind, Except.map]
  | ok entries =>
    simp only [listing, required, walked, Damage.orFault, bind, Except.bind, Except.map, pure,
      Except.pure, Listing.pseudocode]
    rw [List.map_congr_left fun entry _ => Outline.line_plain _ entry]

theorem pseudocode_sketch (required : project.requireEditing = .ok (index, target))
    (editor : Editor) :
    (project.listing editor { withIds := false, withChoices := false }).map Listing.pseudocode =
      (Damage.orFault (Outline.ofArena target.blocks.sketch)).map fun entries =>
        "\n".intercalate (entries.map Outline.plainLine) := by
  rw [pseudocode_listing required, Outline.ofArena_sketch]
  cases Outline.ofArena target.blocks with
  | error damage => rfl
  | ok entries =>
    have lines : (entries.map Entry.sketch).map Outline.plainLine =
        entries.map Outline.plainLine := by
      rw [List.map_map]
      exact List.map_congr_left fun entry _ => Outline.plainLine_sketch entry
    simp only [Except.map, Damage.orFault, lines]

theorem pseudocode_of_walkWithin (required : project.requireEditing = .ok (index, target))
    (editor : Editor) (steps : Nat) (lines : List String)
    (walked : (Outline.walkWithin target.blocks steps (target.blocks.scripts.map .script) []).map
      (List.map Outline.plainLine) = some lines) :
    (project.listing editor { withIds := false, withChoices := false }).map Listing.pseudocode =
      .ok ("\n".intercalate lines) := by
  obtain ⟨entries, found, rfl⟩ := Option.map_eq_some_iff.mp walked
  have ended : Outline.ofArena target.blocks = .ok entries := Outline.walk_of_walkWithin found
  rw [pseudocode_listing required, ended]
  rfl

end Project

end BlockGraph
