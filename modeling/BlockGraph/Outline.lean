import BlockGraph.Arena.Traversal
import BlockGraph.Catalog.Spec

/-!
Outlines: the visible blocks of an arena in reading order. A walk goes through the scripts, each
block before its inputs, its branches and the block below it, and numbers the blocks as it meets
them. Only blocks of a known structural type are visible; the walk fails where a link leads to no
block, or to a visible block for the second time.
-/

set_option autoImplicit false

namespace BlockGraph

inductive Entry where
  | separator
  | header (index : Nat) (id : String) (block : Block) (depth : Nat) (top : Bool)
  | field (owner opcode name : String) (field : Field) (depth : Nat)
  | input (name : String) (depth : Nat)
  | literal (name shadowId : String) (shadow : Block) (depth : Nat)
  | branch (branch : Branch) (depth : Nat)

namespace Outline

/-- What is left to do on a walk. -/
inductive Task where
  | script (root : String)
  | sequence (head : String) (depth : Nat) (top : Bool)
  | input (owner : String) (block : Block) (name : String) (depth : Nat)
  | branch (branch : Branch) (head : Option String) (depth : Nat)

/-- Inputs in their stored order, and then expected ones that are missing. -/
def inputNames (block : Block) : List String :=
  let stored := block.inputs.map Input.name
  stored ++ (Catalog.expectedInputs block.opcode).filter fun name => !stored.contains name

def isStructural (block : Block) : Bool :=
  Catalog.kind block.opcode = .structural

/-- Branches that are present or expected. -/
def shownBranches (block : Block) : List Branch :=
  Branch.all.filter fun branch =>
    (block.branch branch).isSome || (Catalog.expectedBranches block.opcode).contains branch

def fieldEntries (id : String) (block : Block) (depth : Nat) : List Entry :=
  block.fields.entries.map fun (name, field) => .field id block.opcode name field depth

/-- What follows the header and the fields of a block. -/
def innerTasks (id : String) (block : Block) (depth : Nat) : List Task :=
  (inputNames block).map (fun name => .input id block name depth) ++
    (shownBranches block).map (fun branch => .branch branch (block.branch branch) depth) ++
    block.next.toList.map fun next => .sequence next depth false

/-- What one task adds to the outline, the tasks that take its place, and the block it shows. -/
structure Step where
  entries : List Entry
  tasks : List Task
  shown : Option String

def inputStep (arena : Arena) (owner : String) (block : Block) (name : String) (depth : Nat) :
    Except Damage Step :=
  match block.plugged? name with
  | none => .ok ⟨[.input name depth], [], none⟩
  | some child =>
    match arena.get? child with
    | none => .error (.missingInputBlock name owner child)
    | some plugged =>
      match Catalog.kind plugged.opcode with
      | .structural => .ok ⟨[.input name depth], [.sequence child (depth + 1) false], none⟩
      | .shadow => .ok ⟨[.literal name child plugged depth], [], none⟩
      | .outOfScope => .ok ⟨[.input name depth], [], none⟩

/-- A script is set off by a separator unless it is the first one shown. A sequence ends where its
next block is not visible. -/
def step (arena : Arena) (visited : List String) : Task → Except Damage Step
  | .script root =>
    match arena.get? root with
    | none => .error (.missingBlock root)
    | some block =>
      if isStructural block then
        let gap := if visited.isEmpty then [] else [Entry.separator]
        .ok ⟨gap, [.sequence root 0 true], none⟩
      else .ok ⟨[], [], none⟩
  | .sequence id depth top =>
    match arena.get? id with
    | none => .error (.missingBlock id)
    | some block =>
      if isStructural block then
        if id ∈ visited then .error (.visitedTwice id)
        else
          let header := Entry.header (visited.length + 1) id block depth top
          -- Visited from here on, while the blocks inside it are still to come.
          .ok ⟨header :: fieldEntries id block depth, innerTasks id block depth, some id⟩
      else .ok ⟨[], [], none⟩
  | .input owner block name depth => inputStep arena owner block name depth
  | .branch branch head depth =>
    .ok ⟨[.branch branch depth], head.toList.map fun id => .sequence id (depth + 1) false, none⟩

/-- Number of steps that a task may take before it shows a block. -/
def Task.rank : Task → Nat
  | .sequence _ _ _ => 1
  | _ => 2

def rank : List Task → Nat
  | [] => 0
  | task :: rest => task.rank + rank rest

theorem rank_append (first second : List Task) :
    rank (first ++ second) = rank first + rank second := by
  induction first with
  | nil => simp [rank]
  | cons task rest ih => simp [rank, ih, Nat.add_assoc]

/-- A step shows a block that was not visited, or leaves less to do. -/
theorem step_progress {arena : Arena} {visited : List String} {task : Task} {next : Step}
    (taken : step arena visited task = .ok next) :
    arena.unseen (next.shown.toList ++ visited) < arena.unseen visited ∨
      next.shown = none ∧ rank next.tasks < task.rank := by
  cases task with
  | script root =>
    simp only [step] at taken
    split at taken
    · cases taken
    · split at taken <;> cases taken <;> exact .inr ⟨rfl, by simp [rank, Task.rank]⟩
  | sequence id depth top =>
    simp only [step] at taken
    split at taken
    · cases taken
    · rename_i found
      split at taken
      · split at taken
        · cases taken
        · rename_i isNew
          cases taken
          exact .inl (Arena.unseen_lt found isNew)
      · cases taken
        exact .inr ⟨rfl, by simp [rank, Task.rank]⟩
  | input owner block name depth =>
    simp only [step, inputStep] at taken
    split at taken
    · cases taken
      exact .inr ⟨rfl, by simp [rank, Task.rank]⟩
    · split at taken
      · cases taken
      · split at taken <;> cases taken <;> exact .inr ⟨rfl, by simp [rank, Task.rank]⟩
  | branch branch head depth =>
    cases taken
    cases head <;> exact .inr ⟨rfl, by simp [rank, Task.rank]⟩

/-- The entries that a list of tasks adds, given the ids visited before, the last one first. -/
def walk (arena : Arena) (agenda : List Task) (visited : List String) :
    Except Damage (List Entry) :=
  match agenda with
  | [] => .ok []
  | task :: rest =>
    match _ : step arena visited task with
    | .error damage => .error damage
    | .ok next => do
      let later ← walk arena (next.tasks ++ rest) (next.shown.toList ++ visited)
      return next.entries ++ later
termination_by (arena.unseen visited, rank agenda)
decreasing_by
  rcases step_progress ‹_› with fewer | ⟨none, less⟩
  · exact .left _ _ fewer
  · rw [none]
    refine .right _ ?_
    rw [rank_append, rank]
    omega

def ofArena (arena : Arena) : Except Damage (List Entry) :=
  walk arena (arena.scripts.map .script) []

end Outline

end BlockGraph
