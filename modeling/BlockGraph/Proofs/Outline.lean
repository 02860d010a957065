import BlockGraph.Outline.Listing
import BlockGraph.Proofs.Search
import BlockGraph.Proofs.Slots

/-!
Outlines are depth-first searches. A walk that ends shows the blocks of a search through what its
tasks refer to, hiding the blocks that are not structural; a walk that fails is blocked where that
search is. Each step of a walk either leaves what is referred to as it is, or deals with the first
reference of the search.
-/

set_option autoImplicit false

namespace BlockGraph

open Search

/-- The block of a header with its id. -/
def Entry.shown? : Entry → Option (String × Block)
  | .header _ id block _ _ => some (id, block)
  | _ => none

namespace Outline

/-- What the lines of a block refer to: inputs in their order, branches, and the block below. -/
def references (block : Block) : List String :=
  block.inputs.filterMap Input.block ++ Branch.all.filterMap block.branch ++ block.next.toList

/-- A walk hides the blocks that are not structural. -/
def visible (block : Block) : Option (List String) :=
  if isStructural block then some (references block) else none

def Task.targets : Task → List String
  | .script root => [root]
  | .sequence head _ _ => [head]
  | .input _ block name _ => (block.plugged? name).toList
  | .branch _ head _ => head.toList

variable {arena : Arena} {block : Block} {visited rest : List String} {task : Task} {next : Step}

theorem visible_of_structural (structural : isStructural block = true) :
    visible block = some (references block) := by
  simp [visible, structural]

theorem visible_of_not_structural (hidden : isStructural block = false) : visible block = none := by
  simp [visible, hidden]

theorem isStructural_of_kind {kind : Catalog.Kind} (same : Catalog.kind block.opcode = kind)
    (different : kind ≠ .structural) : isStructural block = false := by
  simp [isStructural, same, different]

/-- Among distinct names, a name finds its own input. -/
theorem plugged?_of_mem {input : Input} (distinct : (block.inputs.map Input.name).Nodup)
    (member : input ∈ block.inputs) : block.plugged? input.name = input.block := by
  have found : block.input? input.name = some input := by
    rw [Block.input?]
    generalize block.inputs = inputs at distinct member
    induction inputs with
    | nil => cases member
    | cons head rest ih =>
      have apart := List.nodup_cons.mp distinct
      rcases List.mem_cons.mp member with rfl | later
      · simp
      · have different : head.name ≠ input.name := fun same =>
          apart.1 (same ▸ List.mem_map_of_mem later)
        rw [List.find?_cons_of_neg (by simpa using different)]
        exact ih apart.2 later
  rw [Block.plugged?, found, Option.bind_some]

theorem plugged?_of_absent {name : String} (absent : name ∉ block.inputs.map Input.name) :
    block.plugged? name = none := by
  have missing : block.input? name = none := by
    apply List.find?_eq_none.mpr
    intro input member same
    exact absent (List.mem_map.mpr ⟨input, member, by simpa using same⟩)
  rw [Block.plugged?, missing, Option.bind_none]

theorem flatMap_plugged? (distinct : (block.inputs.map Input.name).Nodup) :
    (inputNames block).flatMap (fun name => (block.plugged? name).toList) =
      block.inputs.filterMap Input.block := by
  have added : ((Catalog.expectedInputs block.opcode).filter fun name =>
      !(block.inputs.map Input.name).contains name).flatMap
        (fun name => (block.plugged? name).toList) = [] := by
    apply List.flatMap_eq_nil_iff.mpr
    intro name member
    have absent : name ∉ block.inputs.map Input.name := by
      simpa using (List.mem_filter.mp member).2
    rw [plugged?_of_absent absent, Option.toList_none]
  rw [inputNames, List.flatMap_append, added, List.append_nil, List.flatMap_map,
    List.filterMap_eq_flatMap_toList]
  apply List.flatMap_congr
  intro input member
  rw [plugged?_of_mem distinct member]

theorem flatMap_shownBranches (block : Block) :
    (shownBranches block).flatMap (fun branch => (block.branch branch).toList) =
      Branch.all.filterMap block.branch := by
  rw [shownBranches, List.filterMap_eq_flatMap_toList]
  generalize Branch.all = branches
  generalize (Catalog.expectedBranches block.opcode).contains = expected
  induction branches with
  | nil => rfl
  | cons branch rest ih =>
    cases head : block.branch branch with
    | some id => simp [head, ih]
    | none =>
      rw [List.filter_cons]
      split <;> simp [head, ih]

/-- A block refers to the same blocks through its lines as through its links. -/
theorem targets_innerTasks (distinct : (block.inputs.map Input.name).Nodup) (id : String)
    (depth : Nat) : (innerTasks id block depth).flatMap Task.targets = references block := by
  have below : (block.next.toList.map fun next => Task.sequence next depth false).flatMap
      Task.targets = block.next.toList := by
    cases block.next <;> rfl
  rw [innerTasks, List.flatMap_append, List.flatMap_append, List.flatMap_map, List.flatMap_map, below]
  simp only [Task.targets]
  rw [flatMap_plugged? distinct, flatMap_shownBranches, references]

theorem shown?_fieldEntries (id : String) (block : Block) (depth : Nat) :
    (fieldEntries id block depth).filterMap Entry.shown? = [] := by
  rw [fieldEntries, List.filterMap_map]
  exact List.filterMap_eq_nil_iff.mpr fun _ _ => rfl

/-- What a step deals with: nothing, a hidden block, or a block that it shows. -/
inductive Deals (arena : Arena) (visited : List String) (task : Task) (next : Step) : Prop
  | nothing : next.shown = none → next.entries.filterMap Entry.shown? = [] →
      next.tasks.flatMap Task.targets = task.targets → Deals arena visited task next
  | hidden {id : String} {block : Block} : task.targets = [id] → arena.get? id = some block →
      visible block = none → next.shown = none → next.entries.filterMap Entry.shown? = [] →
      next.tasks = [] → Deals arena visited task next
  | shown {id : String} {block : Block} : task.targets = [id] → arena.get? id = some block →
      visible block = some (next.tasks.flatMap Task.targets) → id ∉ visited →
      next.shown = some id → next.entries.filterMap Entry.shown? = [(id, block)] →
      Deals arena visited task next

/-- Every stored block has distinct input names. -/
def Distinct (arena : Arena) : Prop :=
  ∀ id block, arena.get? id = some block → (block.inputs.map Input.name).Nodup

theorem step_deals (distinct : Distinct arena) (taken : step arena visited task = .ok next) :
    Deals arena visited task next := by
  cases task with
  | script root =>
    simp only [step] at taken
    split at taken
    · cases taken
    · rename_i block found
      split at taken
      · cases taken
        refine .nothing rfl ?_ rfl
        split <;> rfl
      · rename_i hidden
        cases taken
        exact .hidden rfl found (visible_of_not_structural (by simpa using hidden)) rfl rfl rfl
  | sequence id depth top =>
    simp only [step] at taken
    split at taken
    · cases taken
    · rename_i block found
      split at taken
      · rename_i structural
        split at taken
        · cases taken
        · rename_i isNew
          cases taken
          refine .shown rfl found ?_ isNew rfl ?_
          · rw [targets_innerTasks (distinct id block found)]
            exact visible_of_structural structural
          · simp only [List.filterMap_cons, Entry.shown?, shown?_fieldEntries]
      · rename_i hidden
        cases taken
        exact .hidden rfl found (visible_of_not_structural (by simpa using hidden)) rfl rfl rfl
  | input owner block name depth =>
    simp only [step, inputStep] at taken
    split at taken
    · rename_i missing
      cases taken
      exact .nothing rfl rfl (by simp [Task.targets, missing])
    · rename_i child plugged
      have target : (Task.input owner block name depth).targets = [child] := by
        simp [Task.targets, plugged]
      split at taken
      · cases taken
      · rename_i inner found
        split at taken
        · cases taken
          exact .nothing rfl rfl (by rw [target]; rfl)
        · rename_i kind
          cases taken
          exact .hidden target found
            (visible_of_not_structural (isStructural_of_kind kind (by decide))) rfl rfl rfl
        · rename_i kind
          cases taken
          exact .hidden target found
            (visible_of_not_structural (isStructural_of_kind kind (by decide))) rfl rfl rfl
  | branch branch head depth =>
    cases taken
    refine .nothing rfl rfl ?_
    cases head <;> rfl

theorem blocked_of_step {damage : Damage} (failed : step arena visited task = .error damage) :
    Blocked arena visible (task.targets ++ rest) visited := by
  cases task with
  | script root =>
    simp only [step] at failed
    split at failed
    · rename_i missing
      exact .missing missing
    · split at failed <;> cases failed
  | sequence id depth top =>
    simp only [step] at failed
    split at failed
    · rename_i missing
      exact .missing missing
    · rename_i block found
      split at failed
      · rename_i structural
        split at failed
        · rename_i old
          exact .repeated ⟨block, _, found, visible_of_structural structural⟩ old
        · cases failed
      · cases failed
  | input owner block name depth =>
    simp only [step, inputStep] at failed
    split at failed
    · cases failed
    · rename_i child plugged
      split at failed
      · rename_i missing
        simp only [Task.targets, plugged]
        exact .missing missing
      · split at failed <;> cases failed
  | branch branch head depth => cases failed

/-- A walk ends with the blocks of a search, each shown as it is stored, or is blocked like one. -/
theorem walk_cases (distinct : Distinct arena) (agenda : List Task) (visited : List String) :
    (∃ entries, walk arena agenda visited = .ok entries ∧
      Explores arena visible (agenda.flatMap Task.targets) visited
        ((entries.filterMap Entry.shown?).map Prod.fst) ∧
      ∀ shown ∈ entries.filterMap Entry.shown?, arena.get? shown.1 = some shown.2) ∨
      (∃ damage, walk arena agenda visited = .error damage) ∧
        Blocked arena visible (agenda.flatMap Task.targets) visited := by
  fun_induction walk arena agenda visited with
  | case1 visited => exact .inl ⟨[], rfl, .done, by simp⟩
  | case2 visited task rest damage failed =>
    refine .inr ⟨⟨damage, rfl⟩, ?_⟩
    rw [List.flatMap_cons]
    exact blocked_of_step failed
  | case3 visited task rest next taken ih =>
    rw [List.flatMap_append] at ih
    rw [List.flatMap_cons]
    rcases ih with ⟨entries, walked, explores, stored⟩ | ⟨⟨damage, failed⟩, blocked⟩
    · refine .inl ⟨next.entries ++ entries, by rw [walked]; rfl, ?_⟩
      rw [List.filterMap_append]
      cases step_deals distinct taken with
      | nothing unshown plain same =>
        rw [unshown, same] at explores
        rw [plain]
        exact ⟨explores, stored⟩
      | hidden target found hidden unshown plain none =>
        rw [unshown, none] at explores
        rw [plain, target]
        exact ⟨.hidden found hidden explores, stored⟩
      | @shown id block target found visible isNew isShown header =>
        rw [isShown] at explores
        rw [header, target]
        refine ⟨.shown found visible isNew explores, fun shown member => ?_⟩
        rcases List.mem_cons.mp member with rfl | later
        · exact found
        · exact stored shown later
    · refine .inr ⟨⟨damage, by rw [failed]; rfl⟩, ?_⟩
      cases step_deals distinct taken with
      | nothing unshown plain same =>
        rw [unshown, same] at blocked
        exact blocked
      | hidden target found hidden unshown plain none =>
        rw [unshown, none] at blocked
        rw [target]
        exact .hidden found hidden blocked
      | shown target found visible isNew isShown header =>
        rw [isShown] at blocked
        rw [target]
        exact .shown found visible isNew blocked

/-- What each task leads to when its step succeeds. -/
inductive Taken (arena : Arena) (visited : List String) : Task → Step → Prop
  | script {root : String} {block : Block} : arena.get? root = some block →
      isStructural block = true → Taken arena visited (.script root)
        ⟨if visited.isEmpty then [] else [.separator], [.sequence root 0 true], none⟩
  | hiddenScript {root : String} {block : Block} : arena.get? root = some block →
      isStructural block = false → Taken arena visited (.script root) ⟨[], [], none⟩
  | sequence {id : String} {depth : Nat} {top : Bool} {block : Block} :
      arena.get? id = some block → isStructural block = true → id ∉ visited →
      Taken arena visited (.sequence id depth top)
        ⟨.header (visited.length + 1) id block depth top :: fieldEntries id block depth,
          innerTasks id block depth, some id⟩
  | hiddenSequence {id : String} {depth : Nat} {top : Bool} {block : Block} :
      arena.get? id = some block → isStructural block = false →
      Taken arena visited (.sequence id depth top) ⟨[], [], none⟩
  | emptyInput {owner name : String} {block : Block} {depth : Nat} : block.plugged? name = none →
      Taken arena visited (.input owner block name depth) ⟨[.input name depth], [], none⟩
  | nested {owner name child : String} {block inner : Block} {depth : Nat} :
      block.plugged? name = some child → arena.get? child = some inner →
      Catalog.kind inner.opcode = .structural → Taken arena visited (.input owner block name depth)
        ⟨[.input name depth], [.sequence child (depth + 1) false], none⟩
  | literal {owner name child : String} {block inner : Block} {depth : Nat} :
      block.plugged? name = some child → arena.get? child = some inner →
      Catalog.kind inner.opcode = .shadow → Taken arena visited (.input owner block name depth)
        ⟨[.literal name child inner depth], [], none⟩
  | outOfScope {owner name child : String} {block inner : Block} {depth : Nat} :
      block.plugged? name = some child → arena.get? child = some inner →
      Catalog.kind inner.opcode = .outOfScope →
      Taken arena visited (.input owner block name depth) ⟨[.input name depth], [], none⟩
  | branch {branch : Branch} {head : Option String} {depth : Nat} :
      Taken arena visited (.branch branch head depth)
        ⟨[.branch branch depth], head.toList.map fun id => .sequence id (depth + 1) false, none⟩

theorem taken_of_step (ended : step arena visited task = .ok next) :
    Taken arena visited task next := by
  cases task with
  | script root =>
    simp only [step] at ended
    split at ended
    · cases ended
    · rename_i block found
      split at ended
      · rename_i structural
        cases ended
        exact .script found structural
      · rename_i hidden
        cases ended
        exact .hiddenScript found (by simpa using hidden)
  | sequence id depth top =>
    simp only [step] at ended
    split at ended
    · cases ended
    · rename_i block found
      split at ended
      · rename_i structural
        split at ended
        · cases ended
        · rename_i isNew
          cases ended
          exact .sequence found structural isNew
      · rename_i hidden
        cases ended
        exact .hiddenSequence found (by simpa using hidden)
  | input owner block name depth =>
    simp only [step, inputStep] at ended
    split at ended
    · rename_i absent
      cases ended
      exact .emptyInput absent
    · rename_i child plugged
      split at ended
      · cases ended
      · rename_i inner found
        split at ended
        · rename_i kind
          cases ended
          exact .nested plugged found kind
        · rename_i kind
          cases ended
          exact .literal plugged found kind
        · rename_i kind
          cases ended
          exact .outOfScope plugged found kind
  | branch branch head depth =>
    cases ended
    exact .branch

theorem step_of_taken (taken : Taken arena visited task next) :
    step arena visited task = .ok next := by
  cases taken with
  | script found structural => simp [step, found, structural]
  | hiddenScript found hidden => simp [step, found, hidden]
  | sequence found structural isNew => simp [step, found, structural, isNew]
  | hiddenSequence found hidden => simp [step, found, hidden]
  | emptyInput absent => simp [step, inputStep, absent]
  | nested plugged found kind => simp [step, inputStep, plugged, found, kind]
  | literal plugged found kind => simp [step, inputStep, plugged, found, kind]
  | outOfScope plugged found kind => simp [step, inputStep, plugged, found, kind]
  | branch => rfl

theorem walk_of_taken (taken : Taken arena visited task next) (rest : List Task) :
    walk arena (task :: rest) visited =
      (walk arena (next.tasks ++ rest) (next.shown.toList ++ visited)).map (next.entries ++ ·) := by
  rw [walk]
  split
  · rename_i failed
    rw [step_of_taken taken] at failed
    cases failed
  · rename_i other ended
    cases ended.symm.trans (step_of_taken taken)
    rfl

/-- What holds of no tasks, and of a task whenever it holds of what takes its place, holds of every
walk that ends. -/
theorem walk_induction {motive : List Task → List String → List Entry → Prop}
    (done : ∀ visited, motive [] visited [])
    (proceed : ∀ {visited task rest next later}, Taken arena visited task next →
      motive (next.tasks ++ rest) (next.shown.toList ++ visited) later →
      motive (task :: rest) visited (next.entries ++ later))
    {agenda : List Task} {visited : List String} {entries : List Entry}
    (walked : walk arena agenda visited = .ok entries) : motive agenda visited entries := by
  fun_induction walk arena agenda visited generalizing entries with
  | case1 visited =>
    cases walked
    exact done visited
  | case2 visited task rest damage failed => cases walked
  | case3 visited task rest next ended ih =>
    cases remaining : walk arena (next.tasks ++ rest) (next.shown.toList ++ visited) with
    | error damage =>
      rw [remaining] at walked
      cases walked
    | ok later =>
      rw [remaining] at walked
      cases walked
      exact proceed (taken_of_step ended) (ih remaining)

end Outline

end BlockGraph
