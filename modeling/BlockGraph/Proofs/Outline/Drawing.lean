import BlockGraph.Proofs.Outline.Sketch
import BlockGraph.Proofs.WellLinked.Sessions

/-!
Outlines are drawings of forests. The visible blocks of an arena form a forest: a sequence of blocks,
each with its slots, and in a slot a literal, a sequence of its own or nothing. A drawing of the forest
is a recursion on its structure. A walk keeps an agenda and a list of visited blocks instead; whenever
it ends, its entries are the drawing of the one forest that the arena unfolds to.
-/

set_option autoImplicit false

namespace BlockGraph

namespace Outline

mutual

/-- Visible blocks, each below the one before it. -/
inductive Sequence where
  | done
  | block (id : String) (block : Block) (slots : Slots) (below : Sequence)

/-- Inputs and then branches of a visible block. -/
inductive Slots where
  | done
  | input (name : String) (filling : Filling) (rest : Slots)
  | branch (branch : Branch) (inner : Sequence) (rest : Slots)

/-- What an input shows. -/
inductive Filling where
  | bare
  | literal (id : String) (shadow : Block)
  | nested (inner : Sequence)

end

mutual

/-- Number of visible blocks. -/
def Sequence.size : Sequence → Nat
  | .done => 0
  | .block _ _ slots below => 1 + slots.size + below.size

def Slots.size : Slots → Nat
  | .done => 0
  | .input _ filling rest => filling.size + rest.size
  | .branch _ inner rest => inner.size + rest.size

def Filling.size : Filling → Nat
  | .bare => 0
  | .literal _ _ => 0
  | .nested inner => inner.size

end

mutual

/-- The drawing of a sequence, when `count` blocks have been numbered before. -/
def Sequence.entries (count depth : Nat) (top : Bool) : Sequence → List Entry
  | .done => []
  | .block id block slots below =>
    .header (count + 1) id block depth top :: fieldEntries id block depth ++
      slots.entries (count + 1) depth ++ below.entries (count + 1 + slots.size) depth false

def Slots.entries (count depth : Nat) : Slots → List Entry
  | .done => []
  | .input name filling rest =>
    filling.entries count depth name ++ rest.entries (count + filling.size) depth
  | .branch branch inner rest =>
    .branch branch depth :: inner.entries count (depth + 1) false ++
      rest.entries (count + inner.size) depth

def Filling.entries (count depth : Nat) (name : String) : Filling → List Entry
  | .bare => [.input name depth]
  | .literal id shadow => [.literal name id shadow depth]
  | .nested inner => .input name depth :: inner.entries count (depth + 1) false

end

/-- Drawings of scripts, numbered through. -/
def scriptDrawings (count : Nat) : List Sequence → List (List Entry)
  | [] => []
  | script :: rest => script.entries count 0 true :: scriptDrawings (count + script.size) rest

/-- The drawing of a forest: an empty line stands between two scripts. -/
def forestEntries (forest : List Sequence) : List Entry :=
  [Entry.separator].intercalate (scriptDrawings 0 forest)

mutual

/-- The visible blocks that a link leads to. A sequence ends at the first block that is not
structural. -/
inductive Unfolds (arena : Arena) : Option String → Sequence → Prop
  | absent : Unfolds arena none .done
  | hidden {id : String} {block : Block} : arena.get? id = some block →
      isStructural block = false → Unfolds arena (some id) .done
  | shown {id : String} {block : Block} {slots : Slots} {below : Sequence} :
      arena.get? id = some block → isStructural block = true →
      Fills arena block (inputNames block) (shownBranches block) slots →
      Unfolds arena block.next below → Unfolds arena (some id) (.block id block slots below)

/-- One slot for each name and one for each branch, in their order. -/
inductive Fills (arena : Arena) : Block → List String → List Branch → Slots → Prop
  | done {block : Block} : Fills arena block [] [] .done
  | input {block : Block} {name : String} {names : List String} {branches : List Branch}
      {filling : Filling} {rest : Slots} : Holds arena (block.plugged? name) filling →
      Fills arena block names branches rest →
      Fills arena block (name :: names) branches (.input name filling rest)
  | branch {block : Block} {branch : Branch} {branches : List Branch} {inner : Sequence}
      {rest : Slots} : Unfolds arena (block.branch branch) inner →
      Fills arena block [] branches rest →
      Fills arena block [] (branch :: branches) (.branch branch inner rest)

/-- What an input shows of the block that is plugged in. -/
inductive Holds (arena : Arena) : Option String → Filling → Prop
  | empty : Holds arena none .bare
  | outOfScope {id : String} {block : Block} : arena.get? id = some block →
      Catalog.kind block.opcode = .outOfScope → Holds arena (some id) .bare
  | literal {id : String} {block : Block} : arena.get? id = some block →
      Catalog.kind block.opcode = .shadow → Holds arena (some id) (.literal id block)
  | nested {id : String} {block : Block} {inner : Sequence} : arena.get? id = some block →
      Catalog.kind block.opcode = .structural → Unfolds arena (some id) inner →
      Holds arena (some id) (.nested inner)

end

/-- The visible scripts among the listed ones. -/
inductive Scripts (arena : Arena) : List String → List Sequence → Prop
  | done : Scripts arena [] []
  | hidden {root : String} {block : Block} {roots : List String} {forest : List Sequence} :
      arena.get? root = some block → isStructural block = false → Scripts arena roots forest →
      Scripts arena (root :: roots) forest
  | shown {root : String} {block : Block} {script : Sequence} {roots : List String}
      {forest : List Sequence} : arena.get? root = some block → isStructural block = true →
      Unfolds arena (some root) script → Scripts arena roots forest →
      Scripts arena (root :: roots) (script :: forest)

theorem found_unique {arena : Arena} {id : String} {first second : Block}
    (left : arena.get? id = some first) (right : arena.get? id = some second) : first = second :=
  Option.some.inj (left.symm.trans right)

mutual

/-- A link unfolds in one way only. -/
theorem Unfolds.unique {arena : Arena} {head : Option String} {left right : Sequence}
    (first : Unfolds arena head left) (second : Unfolds arena head right) : left = right := by
  cases first with
  | absent =>
    cases second
    rfl
  | hidden found isHidden =>
    cases second with
    | hidden => rfl
    | shown other structural =>
      rw [found_unique found other, structural] at isHidden
      cases isHidden
  | shown found structural fills below =>
    cases second with
    | hidden other isHidden =>
      rw [found_unique found other, isHidden] at structural
      cases structural
    | shown other _ fills' below' =>
      cases found_unique found other
      rw [Fills.unique fills fills', Unfolds.unique below below']

theorem Fills.unique {arena : Arena} {block : Block} {names : List String}
    {branches : List Branch} {left right : Slots} (first : Fills arena block names branches left)
    (second : Fills arena block names branches right) : left = right := by
  cases first with
  | done =>
    cases second
    rfl
  | input holds rest =>
    cases second with
    | input holds' rest' => rw [Holds.unique holds holds', Fills.unique rest rest']
  | branch inner rest =>
    cases second with
    | branch inner' rest' => rw [Unfolds.unique inner inner', Fills.unique rest rest']

theorem Holds.unique {arena : Arena} {head : Option String} {left right : Filling}
    (first : Holds arena head left) (second : Holds arena head right) : left = right := by
  cases first with
  | empty =>
    cases second
    rfl
  | outOfScope found kind =>
    cases second with
    | outOfScope => rfl
    | literal other kind' | nested other kind' =>
      rw [found_unique found other, kind'] at kind
      cases kind
  | literal found kind =>
    cases second with
    | literal other _ => rw [found_unique found other]
    | outOfScope other kind' | nested other kind' =>
      rw [found_unique found other, kind'] at kind
      cases kind
  | nested found kind inner =>
    cases second with
    | nested _ _ inner' => rw [Unfolds.unique inner inner']
    | outOfScope other kind' | literal other kind' =>
      rw [found_unique found other, kind'] at kind
      cases kind

end

theorem Scripts.unique {arena : Arena} {roots : List String} {left right : List Sequence}
    (first : Scripts arena roots left) (second : Scripts arena roots right) : left = right := by
  induction first generalizing right with
  | done =>
    cases second
    rfl
  | hidden found isHidden _ ih =>
    cases second with
    | hidden _ _ rest => exact ih rest
    | shown other structural _ _ =>
      rw [found_unique found other, structural] at isHidden
      cases isHidden
  | shown found structural unfolds _ ih =>
    cases second with
    | hidden other isHidden _ =>
      rw [found_unique found other, isHidden] at structural
      cases structural
    | shown _ _ unfolds' rest => rw [unfolds.unique unfolds', ih rest]

/-- The entries of an agenda, task by task, when `count` blocks have been numbered before. -/
inductive Draws (arena : Arena) : Nat → List Task → List Entry → Prop
  | done {count : Nat} : Draws arena count [] []
  | hidden {count : Nat} {root : String} {block : Block} {rest : List Task} {later : List Entry} :
      arena.get? root = some block → isStructural block = false → Draws arena count rest later →
      Draws arena count (.script root :: rest) later
  | script {count : Nat} {root : String} {block : Block} {script : Sequence} {rest : List Task}
      {later : List Entry} : arena.get? root = some block → isStructural block = true →
      Unfolds arena (some root) script → Draws arena (count + script.size) rest later →
      Draws arena count (.script root :: rest)
        ((if count = 0 then [] else [.separator]) ++ script.entries count 0 true ++ later)
  | sequence {count depth : Nat} {head : String} {top : Bool} {sequence : Sequence}
      {rest : List Task} {later : List Entry} : Unfolds arena (some head) sequence →
      Draws arena (count + sequence.size) rest later →
      Draws arena count (.sequence head depth top :: rest)
        (sequence.entries count depth top ++ later)
  | input {count depth : Nat} {owner name : String} {block : Block} {filling : Filling}
      {rest : List Task} {later : List Entry} : Holds arena (block.plugged? name) filling →
      Draws arena (count + filling.size) rest later →
      Draws arena count (.input owner block name depth :: rest)
        (filling.entries count depth name ++ later)
  | branch {count depth : Nat} {branch : Branch} {head : Option String} {inner : Sequence}
      {rest : List Task} {later : List Entry} : Unfolds arena head inner →
      Draws arena (count + inner.size) rest later →
      Draws arena count (.branch branch head depth :: rest)
        (.branch branch depth :: inner.entries count (depth + 1) false ++ later)

section

variable {arena : Arena} {block : Block} {count depth : Nat} {rest : List Task}
  {entries : List Entry}

/-- A list of branches is drawn as the slots for them. -/
theorem fills_of_branches {branches : List Branch}
    (drawn : Draws arena count
      (branches.map (fun branch => .branch branch (block.branch branch) depth) ++ rest) entries) :
    ∃ slots later, Fills arena block [] branches slots ∧
      entries = slots.entries count depth ++ later ∧ Draws arena (count + slots.size) rest later := by
  induction branches generalizing count entries with
  | nil => exact ⟨.done, entries, .done, rfl, drawn⟩
  | cons branch branches ih =>
    rw [List.map_cons, List.cons_append] at drawn
    cases drawn with
    | @branch _ _ _ _ inner _ after unfolds others =>
      obtain ⟨slots, later, fills, rfl, drawn⟩ := ih others
      refine ⟨.branch branch inner slots, later, .branch unfolds fills, ?_, ?_⟩
      · simp only [Slots.entries, List.append_assoc, List.cons_append]
      · rw [Slots.size, ← Nat.add_assoc]
        exact drawn

theorem fills_of_slots {id : String} {names : List String} {branches : List Branch}
    (drawn : Draws arena count
      (names.map (fun name => .input id block name depth) ++
        (branches.map (fun branch => .branch branch (block.branch branch) depth) ++ rest)) entries) :
    ∃ slots later, Fills arena block names branches slots ∧
      entries = slots.entries count depth ++ later ∧ Draws arena (count + slots.size) rest later := by
  induction names generalizing count entries with
  | nil => exact fills_of_branches drawn
  | cons name names ih =>
    rw [List.map_cons, List.cons_append] at drawn
    cases drawn with
    | @input _ _ _ _ _ filling _ after holds others =>
      obtain ⟨slots, later, fills, rfl, drawn⟩ := ih others
      refine ⟨.input name filling slots, later, .input holds fills, ?_, ?_⟩
      · simp only [Slots.entries, List.append_assoc]
      · rw [Slots.size, ← Nat.add_assoc]
        exact drawn

theorem unfolds_of_next {next : Option String}
    (drawn : Draws arena count
      (next.toList.map (fun id => .sequence id depth false) ++ rest) entries) :
    ∃ below later, Unfolds arena next below ∧ entries = below.entries count depth false ++ later ∧
      Draws arena (count + below.size) rest later := by
  cases next with
  | none => exact ⟨.done, entries, .absent, rfl, drawn⟩
  | some id =>
    cases drawn with
    | @sequence _ _ _ _ below _ later unfolds others => exact ⟨below, later, unfolds, rfl, others⟩

/-- What a shown block leaves to do is drawn as its slots and the sequence below it. -/
theorem draws_shown {id : String} {top : Bool} (found : arena.get? id = some block)
    (structural : isStructural block = true)
    (drawn : Draws arena (count + 1) (innerTasks id block depth ++ rest) entries) :
    Draws arena count (.sequence id depth top :: rest)
      (.header (count + 1) id block depth top :: fieldEntries id block depth ++ entries) := by
  rw [innerTasks, List.append_assoc, List.append_assoc] at drawn
  obtain ⟨slots, after, fills, rfl, others⟩ := fills_of_slots drawn
  obtain ⟨below, later, unfolds, rfl, remaining⟩ := unfolds_of_next others
  have whole : Unfolds arena (some id) (.block id block slots below) :=
    .shown found structural fills unfolds
  have sizes : count + 1 + slots.size + below.size =
      count + (Sequence.block id block slots below).size := by
    rw [Sequence.size]
    omega
  rw [sizes] at remaining
  have same : Draws arena count (.sequence id depth top :: rest) _ := .sequence whole remaining
  simpa only [Sequence.entries, List.append_assoc, List.cons_append] using same

/-- A step of a walk draws the first entries of its task, and leaves the others to the tasks that
take its place. -/
theorem draws_of_taken {visited : List String} {task : Task} {next : Step}
    (taken : Taken arena visited task next)
    (drawn : Draws arena (next.shown.toList ++ visited).length (next.tasks ++ rest) entries) :
    Draws arena visited.length (task :: rest) (next.entries ++ entries) := by
  cases taken with
  | @script root block found structural =>
    cases drawn with
    | sequence unfolds others =>
      have same : Draws arena visited.length (.script root :: rest) _ :=
        .script found structural unfolds others
      simpa only [List.length_eq_zero_iff, List.isEmpty_iff, List.append_assoc,
        Option.toList_none, List.nil_append] using same
  | hiddenScript found hidden => exact .hidden found hidden drawn
  | sequence found structural isNew => exact draws_shown found structural drawn
  | hiddenSequence found hidden => exact .sequence (.hidden found hidden) drawn
  | @emptyInput owner name block depth absent =>
    have holds : Holds arena (block.plugged? name) .bare := by
      rw [absent]
      exact .empty
    exact .input holds drawn
  | @nested owner name child block inner depth plugged found kind =>
    cases drawn with
    | @sequence _ _ _ _ sequence _ _ unfolds others =>
      have holds : Holds arena (block.plugged? name) (.nested sequence) := by
        rw [plugged]
        exact .nested found kind unfolds
      exact .input holds others
  | @literal owner name child block inner depth plugged found kind =>
    have holds : Holds arena (block.plugged? name) (.literal child inner) := by
      rw [plugged]
      exact .literal found kind
    exact .input holds drawn
  | @outOfScope owner name child block inner depth plugged found kind =>
    have holds : Holds arena (block.plugged? name) .bare := by
      rw [plugged]
      exact .outOfScope found kind
    exact .input holds drawn
  | @branch branch head depth =>
    cases head with
    | none => exact .branch .absent drawn
    | some id =>
      cases drawn with
      | sequence unfolds others => exact .branch unfolds others

/-- A walk that ends draws its agenda. -/
theorem draws_of_walk {agenda : List Task} {visited : List String}
    (walked : walk arena agenda visited = .ok entries) :
    Draws arena visited.length agenda entries :=
  walk_induction (motive := fun agenda visited entries => Draws arena visited.length agenda entries)
    (fun _ => .done) draws_of_taken walked

end

/-- A structural block is shown. -/
theorem Unfolds.of_structural {arena : Arena} {root : String} {block : Block} {script : Sequence}
    (unfolds : Unfolds arena (some root) script) (found : arena.get? root = some block)
    (structural : isStructural block = true) :
    ∃ slots below, script = .block root block slots below ∧
      Fills arena block (inputNames block) (shownBranches block) slots ∧
      Unfolds arena block.next below := by
  cases unfolds with
  | hidden other isHidden =>
    rw [found_unique found other, isHidden] at structural
    cases structural
  | shown other _ fills below =>
    cases found_unique found other
    exact ⟨_, _, rfl, fills, below⟩

theorem Unfolds.size_pos {arena : Arena} {root : String} {block : Block} {script : Sequence}
    (unfolds : Unfolds arena (some root) script) (found : arena.get? root = some block)
    (structural : isStructural block = true) : 0 < script.size := by
  obtain ⟨slots, below, rfl, -⟩ := unfolds.of_structural found structural
  rw [Sequence.size]
  omega

/-- After the first script, each one is set off by a separator. -/
theorem scripts_of_draws_later {arena : Arena} {count : Nat} {roots : List String}
    {entries : List Entry} (later : 0 < count)
    (drawn : Draws arena count (roots.map .script) entries) :
    ∃ forest, Scripts arena roots forest ∧
      entries = (scriptDrawings count forest).flatMap fun drawing => .separator :: drawing := by
  induction roots generalizing count entries with
  | nil =>
    cases drawn
    exact ⟨[], .done, rfl⟩
  | cons root roots ih =>
    rw [List.map_cons] at drawn
    cases drawn with
    | hidden found isHidden others =>
      obtain ⟨forest, scripts, same⟩ := ih later others
      exact ⟨forest, .hidden found isHidden scripts, same⟩
    | @script _ _ _ script _ _ found structural unfolds others =>
      obtain ⟨forest, scripts, rfl⟩ := ih (by omega) others
      refine ⟨script :: forest, .shown found structural unfolds scripts, ?_⟩
      rw [if_neg (by omega)]
      rfl

theorem intercalate_cons {α : Type} (gap first : List α) (rest : List (List α)) :
    gap.intercalate (first :: rest) = first ++ rest.flatMap (gap ++ ·) := by
  induction rest generalizing first with
  | nil => simp [List.intercalate]
  | cons second rest ih =>
    have step : gap.intercalate (first :: second :: rest) =
        first ++ gap ++ gap.intercalate (second :: rest) := by
      simp [List.intercalate]
    rw [step, ih, List.flatMap_cons]
    simp only [List.append_assoc]

/-- An agenda of scripts is drawn as a forest. -/
theorem scripts_of_draws {arena : Arena} {roots : List String} {entries : List Entry}
    (drawn : Draws arena 0 (roots.map .script) entries) :
    ∃ forest, Scripts arena roots forest ∧ entries = forestEntries forest := by
  induction roots generalizing entries with
  | nil =>
    cases drawn
    exact ⟨[], .done, rfl⟩
  | cons root roots ih =>
    rw [List.map_cons] at drawn
    cases drawn with
    | hidden found isHidden others =>
      obtain ⟨forest, scripts, same⟩ := ih others
      exact ⟨forest, .hidden found isHidden scripts, same⟩
    | @script _ _ _ script _ _ found structural unfolds others =>
      have positive : 0 < 0 + script.size := by
        rw [Nat.zero_add]
        exact unfolds.size_pos found structural
      obtain ⟨forest, scripts, rfl⟩ := scripts_of_draws_later positive others
      refine ⟨script :: forest, .shown found structural unfolds scripts, ?_⟩
      rw [forestEntries, scriptDrawings, intercalate_cons]
      rfl

/-- The outline of an arena is the drawing of its forest. -/
theorem forest_of_ofArena {arena : Arena} {entries : List Entry}
    (outlined : ofArena arena = .ok entries) :
    ∃ forest, (∀ other, Scripts arena arena.scripts other ↔ other = forest) ∧
      entries = forestEntries forest := by
  obtain ⟨forest, scripts, same⟩ := scripts_of_draws (draws_of_walk outlined)
  refine ⟨forest, fun other => ⟨fun unfolds => unfolds.unique scripts, ?_⟩, same⟩
  intro equal
  rw [equal]
  exact scripts

/-- No slot is shown twice. -/
theorem nodup_inputNames {block : Block} (distinct : (block.inputs.map Input.name).Nodup) :
    (inputNames block).Nodup := by
  have expected : (Catalog.expectedInputs block.opcode).Nodup := by
    unfold Catalog.expectedInputs
    cases found : Catalog.spec? block.opcode with
    | none => exact List.nodup_nil
    | some spec => exact Catalog.specs_distinctInputs spec (Catalog.spec?_eq_some found).1
  rw [inputNames]
  apply List.nodup_append.mpr
  refine ⟨distinct, expected.filter _, ?_⟩
  intro stored inside added missing same
  rw [List.mem_filter, ← same] at missing
  simp [inside] at missing

end Outline

namespace Project

/-- What a listing is made of. -/
theorem listing_eq_ok {project : Project} {editor : Editor} {options : ListingOptions}
    {listing : Listing} (listed : project.listing editor options = .ok listing) :
    ∃ index target entries, project.requireEditing = .ok (index, target) ∧
      Outline.ofArena target.blocks = .ok entries ∧ listing = {
        lines := entries.map (Outline.line ⟨project, index, editor⟩ options)
        records := entries.filterMap (Outline.record? editor)
        targetName := target.name } := by
  unfold Project.listing at listed
  cases required : project.requireEditing with
  | error fault =>
    rw [required] at listed
    cases listed
  | ok chosen =>
    cases outlined : Outline.ofArena chosen.2.blocks with
    | error damage =>
      simp only [required, outlined, Damage.orFault, bind, Except.bind] at listed
      cases listed
    | ok entries =>
      simp only [required, outlined, Damage.orFault, bind, Except.bind, pure, Except.pure] at listed
      cases listed
      exact ⟨chosen.1, chosen.2, entries, rfl, outlined, rfl⟩

end Project

namespace Session

open Outline

/-- A document with one script: a block with an empty condition and another block in its branch. -/
def branchDocument : Json :=
  .ofMembers [("targets", .array [.ofMembers
    [("name", .text "Cat"), ("isStage", .bool false),
      ("blocks", .ofMembers
        [("a", .ofMembers
          [("opcode", .text "control_if"), ("topLevel", .bool true),
            ("inputs", .ofMembers [("SUBSTACK", .array [.ofNat 2, .text "b"])])]),
          ("b", .ofMembers
            [("opcode", .text "looks_say"), ("parent", .text "a"),
              ("inputs", .ofMembers
                [("MESSAGE", .array [.ofNat 1, .array [.ofNat 10, .text "Hi"]])])])])]])]

def branchSession : Session where
  project := .ofTargets [{
    name := "Cat"
    isStage := false
    blocks :=
      { blocks := .ofList
          [("a", { opcode := "control_if", branches := { first := some "b" }, topLevel := true }),
            ("b", {
              opcode := "looks_say"
              parent := some "a"
              inputs := [⟨"MESSAGE", some "prim_1", some "prim_1"⟩] }),
            ("prim_1", {
              opcode := "text"
              fields := .ofList [("TEXT", .plain "Hi")]
              parent := some "b" })]
        scripts := ["a"]
        counter := 1 }
    rest := .ofList [("name", .text "Cat"), ("isStage", .bool false)] }] ∅

end Session

end BlockGraph
