import BlockGraph.Proofs.Listing.OneRow
import BlockGraph.Proofs.Outline.Drawing

/-!
Rows of a listing. A reader of the text takes it apart at newlines, and takes for a block line each
row that starts with a number sign behind its indentation. The header of every record is such a row,
in the order of the records; any other one stands behind a newline inside a line.
-/

set_option autoImplicit false

namespace BlockGraph

open Text

namespace Listing

open Outline

/-- A row that a reader takes for a block line. -/
def isBlockRow (row : List Char) : Bool :=
  (row.dropWhile (· = ' ')).head? = some '#'

def blockRows (text : String) : List (List Char) :=
  (rows text).filter isBlockRow

/-- Block rows behind a newline. -/
def strayRows (text : String) : List (List Char) :=
  (rows text).tail.filter isBlockRow

/-- A number and a block type, as they stand in a header. -/
def mark (index : Nat) (opcode : String) : String :=
  "#" ++ index.repr ++ " " ++ opcode

/-- A row with a number and a block type behind its indentation. -/
def Reads (index : Nat) (opcode : String) (row : List Char) : Prop :=
  (mark index opcode).toList <+: row.dropWhile (· = ' ')

/-- One row for each record, with the number and the type of its block. -/
def HeadersOf (records : List Record) (found : List (List Char)) : Prop :=
  List.Forall₂ (fun (record, index) row => Reads index record.block.opcode row)
    (records.zipIdx 1) found

/-- The block rows are those of the records, and no others. -/
def RowsFollowRecords (listing : Listing) : Prop :=
  HeadersOf listing.records (blockRows listing.pseudocode)

theorem HeadersOf.length_eq {records : List Record} {found : List (List Char)}
    (headers : HeadersOf records found) : records.length = found.length := by
  rw [← List.length_zipIdx (i := 1)]
  exact List.Forall₂.length_eq headers

theorem blockRows_pseudocode (listing : Listing) :
    blockRows listing.pseudocode = listing.lines.flatMap blockRows := by
  rw [pseudocode, blockRows]
  cases listing.lines with
  | nil => decide
  | cons first rest =>
    rw [rows_intercalate, List.filter_flatMap]
    rfl

theorem dropWhile_spaces (count : Nat) {c : Char} (visible : c ≠ ' ') (rest : List Char) :
    (List.replicate count ' ' ++ c :: rest).dropWhile (· = ' ') = c :: rest := by
  induction count with
  | zero => simp [visible]
  | succ count ih => simpa [List.replicate_succ] using ih

/-- The first row of an indented line starts with the mark of the line. -/
theorem exists_rows_indented (count : Nat) {mark : String} (oneRow : OneRow mark) (text : String) :
    ∃ more later, rows (spaces count ++ mark ++ text) =
      (List.replicate count ' ' ++ (mark.toList ++ more)) :: later := by
  have front : OneRow (spaces count ++ mark) := by
    simp [oneRow, oneRow_spaces]
  rw [rows_append front]
  cases found : rows text with
  | nil => exact absurd found (List.splitOnP_ne_nil _ _)
  | cons more later =>
    refine ⟨more, later, ?_⟩
    simp [spaces]

variable {arena : Arena} {entry : Entry}

theorem exists_line_header (context : ChoiceContext) (options : ListingOptions) (index : Nat)
    (id : String) (block : Block) (depth : Nat) (top : Bool) :
    ∃ text, line context options (.header index id block depth top) =
      spaces (4 * depth) ++ mark index block.opcode ++ text := by
  refine ⟨(if top then " [top]" else "") ++
    idSuffix options (.header index id block depth top) ++
    choiceSuffix context options (.header index id block depth top), ?_⟩
  apply String.toList_inj.mp
  simp [line, plainLine, indent, mark, toString]

/-- Lines that are no headers are empty, or start with a dash. -/
theorem line_of_heading?_eq_none (context : ChoiceContext) (options : ListingOptions)
    (plain : entry.heading? = none) :
    line context options entry = "" ∨
      ∃ count text, line context options entry = spaces count ++ "- " ++ text := by
  cases entry with
  | separator =>
    refine .inl ?_
    cases options
    simp [line, plainLine, idSuffix, choiceSuffix, choiceField?]
  | header => cases plain
  | field owner opcode name field depth =>
    refine .inr ⟨4 * depth + 2, s!"field {name}: " ++ field.value ++
      choiceSuffix context options (.field owner opcode name field depth), ?_⟩
    apply String.toList_inj.mp
    simp [line, plainLine, propertyIndent, idSuffix, toString]
  | input name depth =>
    refine .inr ⟨4 * depth + 2, s!"input {name}:" ++
      choiceSuffix context options (.input name depth), ?_⟩
    apply String.toList_inj.mp
    simp [line, plainLine, propertyIndent, idSuffix, toString]
  | literal name id shadow depth =>
    refine .inr ⟨4 * depth + 2, s!"input {name}: " ++ shadowText shadow ++
      choiceSuffix context options (.literal name id shadow depth), ?_⟩
    apply String.toList_inj.mp
    simp [line, plainLine, propertyIndent, idSuffix, toString]
  | branch branch depth =>
    refine .inr ⟨4 * depth + 2, branch.name ++ ":" ++
      choiceSuffix context options (.branch branch depth), ?_⟩
    apply String.toList_inj.mp
    simp [line, plainLine, propertyIndent, idSuffix]

/-- The block rows of a line are its own, if it is a header, and stray ones. -/
theorem blockRows_line (context : ChoiceContext) (options : ListingOptions)
    (stored : entry.Stored arena) :
    ∃ own, blockRows (line context options entry) = own ++ strayRows (line context options entry) ∧
      List.Forall₂ (fun (opcode, index) row => Reads index opcode row) entry.heading?.toList own := by
  cases heading : entry.heading? with
  | none =>
    refine ⟨[], ?_, .nil⟩
    rcases line_of_heading?_eq_none context options heading with empty | ⟨count, text, same⟩
    · rw [empty]
      decide
    · obtain ⟨more, later, split⟩ := exists_rows_indented count (by decide : OneRow "- ") text
      have property : ¬isBlockRow (List.replicate count ' ' ++ ("- ".toList ++ more)) = true := by
        simp [isBlockRow]
      rw [same, blockRows, strayRows, split, List.filter_cons_of_neg property]
      rfl
  | some numbered =>
    cases entry with
    | header index id block depth top =>
      cases heading
      have oneRow : OneRow (mark index block.opcode) := by
        have known : Catalog.kind block.opcode ≠ .outOfScope := by
          rw [of_decide_eq_true stored.2]
          decide
        simp only [mark, oneRow_append]
        exact ⟨⟨⟨by decide, oneRow_repr index⟩, by decide⟩, Catalog.oneRow_opcode known⟩
      obtain ⟨text, same⟩ := exists_line_header context options index id block depth top
      obtain ⟨more, later, split⟩ := exists_rows_indented (4 * depth) oneRow text
      have front : (mark index block.opcode).toList =
          '#' :: (index.repr ++ " " ++ block.opcode).toList := by
        simp [mark]
      have visible := dropWhile_spaces (4 * depth) (by decide : '#' ≠ ' ')
        ((index.repr ++ " " ++ block.opcode).toList ++ more)
      rw [← List.cons_append, ← front] at visible
      refine ⟨[List.replicate (4 * depth) ' ' ++ ((mark index block.opcode).toList ++ more)],
        ?_, .cons ?_ .nil⟩
      · rw [same, blockRows, strayRows, split, List.filter_cons_of_pos]
        · rfl
        · simp [isBlockRow, front]
      · unfold Reads
        rw [visible]
        exact List.prefix_append _ _
    | _ => cases heading

/-- The rows of the headers stand among the block rows, in their order; all others are stray. -/
theorem blockRows_lines (context : ChoiceContext) (options : ListingOptions) {entries : List Entry}
    (stored : ∀ entry ∈ entries, entry.Stored arena) :
    ∃ own, own.Sublist ((entries.map (line context options)).flatMap blockRows) ∧
      List.Forall₂ (fun (opcode, index) row => Reads index opcode row)
        (entries.filterMap Entry.heading?) own ∧
      ((entries.map (line context options)).flatMap blockRows).length =
        own.length + ((entries.map (line context options)).flatMap strayRows).length := by
  induction entries with
  | nil => exact ⟨[], .slnil, .nil, rfl⟩
  | cons entry entries ih =>
    obtain ⟨later, sublist, reads, length⟩ :=
      ih fun other member => stored other (List.mem_cons_of_mem _ member)
    obtain ⟨own, split, first⟩ := blockRows_line context options (stored entry List.mem_cons_self)
    have headings : (entry :: entries).filterMap Entry.heading? =
        entry.heading?.toList ++ entries.filterMap Entry.heading? := by
      cases heading : entry.heading? <;> simp [heading]
    refine ⟨own ++ later, ?_, ?_, ?_⟩
    · rw [List.map_cons, List.flatMap_cons, split]
      exact (List.sublist_append_left own _).append sublist
    · rw [headings]
      exact List.rel_append first reads
    · rw [List.map_cons, List.flatMap_cons, List.flatMap_cons, split]
      simp only [List.length_append, length]
      omega

end Listing

namespace Project

open Listing

variable {project : Project} {editor : Editor} {options : ListingOptions} {listing : Listing}

/-- The rows of the records, in their order, among the block rows. -/
theorem exists_ownRows (listed : project.listing editor options = .ok listing) :
    ∃ own, own.Sublist (blockRows listing.pseudocode) ∧ HeadersOf listing.records own ∧
      (blockRows listing.pseudocode).length =
        listing.records.length + (listing.lines.flatMap strayRows).length := by
  obtain ⟨index, target, entries, required, outlined, rfl⟩ := listing_eq_ok listed
  obtain ⟨own, sublist, reads, length⟩ :=
    blockRows_lines ⟨project, index, editor⟩ options (Outline.stored_of_ofArena outlined)
  rw [Outline.headings_of_ofArena outlined editor, List.forall₂_map_left_iff] at reads
  rw [blockRows_pseudocode]
  refine ⟨own, sublist, reads, ?_⟩
  rw [length, HeadersOf.length_eq reads]

theorem oneRow_of_listing (listed : project.listing editor options = .ok listing)
    (oneRow : project.OneRow) (live : editor.OneRow) :
    ∀ line ∈ listing.lines, Text.OneRow line := by
  obtain ⟨index, target, entries, required, outlined, rfl⟩ := listing_eq_ok listed
  intro line member
  obtain ⟨entry, inside, rfl⟩ := List.mem_map.mp member
  exact Outline.oneRow_line (requireEditing_eq_ok required).2 oneRow live
    (Outline.stored_of_ofArena outlined entry inside) options

/-- The headers of the records stand in the text of a listing as block rows, in their order. They
are the only block rows unless a line has another one behind a newline, and no line has a newline
when no name and no value of the project has one. -/
theorem blockRows_of_listing (listed : project.listing editor options = .ok listing) :
    (∃ own, own.Sublist (blockRows listing.pseudocode) ∧ HeadersOf listing.records own ∧
      (blockRows listing.pseudocode).length =
        listing.records.length + (listing.lines.flatMap strayRows).length) ∧
      (listing.RowsFollowRecords ↔ ∀ line ∈ listing.lines, strayRows line = []) ∧
      (project.OneRow → editor.OneRow → listing.RowsFollowRecords) := by
  obtain ⟨own, sublist, reads, length⟩ := exists_ownRows listed
  have follows : listing.RowsFollowRecords ↔ ∀ line ∈ listing.lines, strayRows line = [] := by
    rw [← List.flatMap_eq_nil_iff]
    constructor
    · intro all
      have count := all.length_eq
      apply List.eq_nil_of_length_eq_zero
      omega
    · intro none
      rw [none, List.length_nil, Nat.add_zero] at length
      have count := reads.length_eq
      have same := sublist.eq_of_length (by omega)
      rw [RowsFollowRecords, ← same]
      exact reads
  refine ⟨⟨own, sublist, reads, length⟩, follows, ?_⟩
  intro oneRow live
  apply follows.mpr
  intro line member
  rw [strayRows, rows_of_oneRow (oneRow_of_listing listed oneRow live line member)]
  rfl

/-- One sprite that says a message. -/
def sayDocument (message : String) : Json :=
  .ofMembers [("targets", .array [.ofMembers
    [("name", .text "Cat"), ("isStage", .bool false),
      ("blocks", .ofMembers
        [("a", .ofMembers
          [("opcode", .text "looks_say"), ("topLevel", .bool true),
            ("inputs", .ofMembers
              [("MESSAGE", .array [.ofNat 1, .array [.ofNat 10, .text message]])])])])]])]

def sayProject (message : String) : Project :=
  .ofTargets [{
    name := "Cat"
    isStage := false
    blocks :=
      { blocks := .ofList
          [("a", {
              opcode := "looks_say"
              topLevel := true
              inputs := [⟨"MESSAGE", some "prim_1", some "prim_1"⟩] }),
            ("prim_1", {
              opcode := "text"
              fields := .ofList [("TEXT", .plain message)]
              parent := some "a" })]
        scripts := ["a"]
        counter := 1 }
    rest := .ofList [("name", .text "Cat"), ("isStage", .bool false)] }] ∅

/-- The lines and the records of a plain listing. -/
theorem listing_of_walkWithin {index : Nat} {target : Target}
    (required : project.requireEditing = .ok (index, target)) (steps : Nat) (lines : List String)
    (records : List Record)
    (walked : (Outline.walkWithin target.blocks steps (target.blocks.scripts.map .script) []).map
      (fun entries => (entries.map Outline.plainLine, entries.filterMap (Outline.record? editor))) =
        some (lines, records)) :
    project.listing editor { withIds := false, withChoices := false } =
      .ok { lines := lines, records := records, targetName := target.name } := by
  obtain ⟨entries, found, same⟩ := Option.map_eq_some_iff.mp walked
  cases same
  have ended : Outline.ofArena target.blocks = .ok entries := Outline.walk_of_walkWithin found
  have plain : entries.map (Outline.line ⟨project, index, editor⟩
      { withIds := false, withChoices := false }) = entries.map Outline.plainLine :=
    List.map_congr_left fun entry _ => Outline.line_plain _ entry
  rw [listing_of_ofArena required ended, plain]

def sayRecord : Record where
  id := "a"
  block :=
    { opcode := "looks_say"
      topLevel := true
      inputs := [⟨"MESSAGE", some "prim_1", some "prim_1"⟩] }
  geometry := {}

/-- A message on one row adds no block row. -/
theorem blockRows_of_listing_say :
    Document.readProject (sayDocument "Hi") = .ok (sayProject "Hi") ∧
      ∃ listing, (sayProject "Hi").listing Editor.headless
          { withIds := false, withChoices := false } = .ok listing ∧
        listing.records.map Record.id = ["a"] ∧ listing.RowsFollowRecords := by
  have listed : (sayProject "Hi").listing Editor.headless
      { withIds := false, withChoices := false } = .ok _ :=
    listing_of_walkWithin rfl 4 ["#1 looks_say [top]", "  - input MESSAGE: \"Hi\" (text)"]
      [sayRecord] (by decide +kernel)
  have live : Editor.headless.OneRow := by
    intro block field current options found
    cases found
  refine ⟨by decide +kernel, _, listed, rfl, ?_⟩
  exact (blockRows_of_listing listed).2.2 (by decide +kernel) live

/-- A message with a newline makes a row that reads like the header of a second block. -/
theorem newline_adds_blockRow :
    Document.readProject (sayDocument "Hi\n#2 looks_hide") =
        .ok (sayProject "Hi\n#2 looks_hide") ∧
      ∃ listing, (sayProject "Hi\n#2 looks_hide").listing Editor.headless
          { withIds := false, withChoices := false } = .ok listing ∧
        listing.pseudocode =
          "#1 looks_say [top]\n  - input MESSAGE: \"Hi\n#2 looks_hide\" (text)" ∧
        listing.records.map Record.id = ["a"] ∧ ¬listing.RowsFollowRecords := by
  have listed : (sayProject "Hi\n#2 looks_hide").listing Editor.headless
      { withIds := false, withChoices := false } = .ok _ :=
    listing_of_walkWithin rfl 4
      ["#1 looks_say [top]", "  - input MESSAGE: \"Hi\n#2 looks_hide\" (text)"]
      [sayRecord] (by decide +kernel)
  refine ⟨by decide +kernel, _, listed, by decide +kernel, rfl, fun follow => ?_⟩
  have count := follow.length_eq
  revert count
  decide +kernel

end Project

end BlockGraph
