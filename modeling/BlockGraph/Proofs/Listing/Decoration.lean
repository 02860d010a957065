import BlockGraph.Proofs.Listing.Rows

/-!
Options and the editor decorate a listing. Whether the editing target can be listed, which blocks get
which numbers and what each line says about them is settled before an option is looked at or the editor
is asked; what comes from there stands at the end of a line, or tells the place of a record.
-/

set_option autoImplicit false

namespace BlockGraph

def ListingOptions.Plain (options : ListingOptions) : Prop :=
  options.withIds = false ∧ options.withChoices = false

namespace Record

/-- Members of a record that tell where its block is. -/
def placeMembers : List String :=
  ["position", "boundingBox"]

/-- Records of one block, whose places may differ. -/
structure SameBlock (first second : Record) : Prop where
  id : first.id = second.id
  block : first.block = second.block

/-- Members of a record that do not tell a place. -/
def blockMembers (id : String) (block : Block) : List (String × Json) :=
  [("id", .text id), ("opcode", .text block.opcode), ("parent", .ofText? block.parent),
    ("next", .ofText? block.next), ("inputs", inputsJson block), ("fields", fieldsJson block)]

theorem get?_toJson (record : Record) {key : String} (other : key ∉ placeMembers) :
    record.toJson.get? key = Entries.get? key (blockMembers record.id record.block) := by
  simp only [placeMembers, List.mem_cons, List.not_mem_nil, or_false, not_or] at other
  rw [toJson, Json.get?_ofMembers, Dict.get?_ofList_of_nodup]
  · cases record.geometry.position <;> cases record.geometry.boundingBox <;>
      simp [Entries.get?, blockMembers, Ne.symm other.1, Ne.symm other.2]
  · cases record.geometry.position <;> cases record.geometry.boundingBox <;> simp

theorem SameBlock.get?_toJson_eq {first second : Record} (same : first.SameBlock second)
    {key : String} (other : key ∉ placeMembers) :
    first.toJson.get? key = second.toJson.get? key := by
  rw [first.get?_toJson other, second.get?_toJson other, same.id, same.block]

end Record

namespace Listing

variable {first second : Listing}

/-- Tables of records with the same keys, where records under one key differ in places only. -/
def SameTable (first second : Dict Json) : Prop :=
  first.keys = second.keys ∧ ∀ key left right, first.get? key = some left →
    second.get? key = some right → ∀ member, member ∉ Record.placeMembers →
      left.get? member = right.get? member

/-- Listings that show the same blocks under the same numbers, in the same number of lines. -/
structure Alike (first second : Listing) : Prop where
  targetName : first.targetName = second.targetName
  lines : first.lines.length = second.lines.length
  records : List.Forall₂ Record.SameBlock first.records second.records
  tables : ∃ left right, (first.toJson.get? "idxToBlock").bind Json.members? = some left ∧
    (second.toJson.get? "idxToBlock").bind Json.members? = some right ∧ SameTable left right

/-- Each line of the second listing is that of the first one with something behind it. -/
def Begins (first second : Listing) : Prop :=
  List.Forall₂ (fun short long => ∃ decoration, long = short ++ decoration) first.lines second.lines

/-- Records of the same blocks stand under the same numbers. -/
theorem sameTable_of_numbered {left right : Dict Json}
    (records : List.Forall₂ Record.SameBlock first.records second.records)
    (leftNumbered : first.Numbered left) (rightNumbered : second.Numbered right) :
    SameTable left right := by
  have places := Outcomes.getElem?_of_forall₂ records
  constructor
  · apply Dict.keys_eq_of_isSome
    intro key
    rw [Bool.eq_iff_iff, Option.isSome_iff_exists, Option.isSome_iff_exists]
    constructor
    · rintro ⟨entry, found⟩
      obtain ⟨position, record, listed, rfl, -⟩ := (leftNumbered key entry).mp found
      rcases places position with ⟨missing, -⟩ | ⟨_, other, -, listed', -⟩
      · cases missing.symm.trans listed
      · exact ⟨other.toJson, (rightNumbered _ _).mpr ⟨position, other, listed', rfl, rfl⟩⟩
    · rintro ⟨entry, found⟩
      obtain ⟨position, record, listed, rfl, -⟩ := (rightNumbered key entry).mp found
      rcases places position with ⟨-, missing⟩ | ⟨other, _, listed', -⟩
      · cases missing.symm.trans listed
      · exact ⟨other.toJson, (leftNumbered _ _).mpr ⟨position, other, listed', rfl, rfl⟩⟩
  · intro key one other oneFound otherFound member outside
    obtain ⟨position, record, listed, rfl, rfl⟩ := (leftNumbered key one).mp oneFound
    obtain ⟨position', record', listed', number, rfl⟩ := (rightNumbered _ other).mp otherFound
    obtain rfl : position = position' := by
      have numbers := Identifier.repr_injective number
      omega
    rcases places position with ⟨missing, -⟩ | ⟨_, _, found, found', same⟩
    · cases missing.symm.trans listed
    · obtain rfl := Option.some.inj (listed.symm.trans found)
      obtain rfl := Option.some.inj (listed'.symm.trans found')
      exact same.get?_toJson_eq outside

/-- The listing of an outline, given what decorates it. -/
def ofEntries (context : ChoiceContext) (options : ListingOptions) (name : String)
    (entries : List Entry) : Listing where
  lines := entries.map (Outline.line context options)
  records := entries.filterMap (Outline.record? context.editor)
  targetName := name

variable (one other : ChoiceContext) (left right : ListingOptions) (name : String)
  (entries : List Entry)

theorem alike_ofEntries :
    (ofEntries one left name entries).Alike (ofEntries other right name entries) := by
  have records : List.Forall₂ Record.SameBlock (ofEntries one left name entries).records
      (ofEntries other right name entries).records := by
    simp only [ofEntries, Outline.record?_eq, ← List.map_filterMap]
    rw [List.forall₂_map_left_iff, List.forall₂_map_right_iff, List.forall₂_same]
    intro shown _
    exact ⟨rfl, rfl⟩
  obtain ⟨leftTable, leftFound, leftNumbered⟩ := (ofEntries one left name entries).exists_numbered
  obtain ⟨rightTable, rightFound, rightNumbered⟩ :=
    (ofEntries other right name entries).exists_numbered
  refine ⟨rfl, ?_, records, leftTable, rightTable, leftFound, rightFound,
    sameTable_of_numbered records leftNumbered rightNumbered⟩
  simp [ofEntries]

theorem begins_ofEntries (plain : left.Plain) :
    (ofEntries one left name entries).Begins (ofEntries other right name entries) := by
  rw [Begins, ofEntries, ofEntries, List.forall₂_map_left_iff, List.forall₂_map_right_iff,
    List.forall₂_same]
  intro entry _
  have bare : left = { withIds := false, withChoices := false } := by
    cases left
    rw [ListingOptions.mk.injEq]
    exact plain
  refine ⟨Outline.idSuffix right entry ++ Outline.choiceSuffix other right entry, ?_⟩
  rw [bare, Outline.line_plain, Outline.line, String.append_assoc]

end Listing

namespace Project

/-- What a listing shows: the editing target, its index and its outline. -/
def outline (project : Project) : Except Fault (Nat × Target × List Entry) := do
  let (index, target) ← project.requireEditing
  let entries ← Damage.orFault (Outline.ofArena target.blocks)
  return (index, target, entries)

/-- A listing is the outline, decorated. -/
theorem listing_eq_map (project : Project) (editor : Editor) (options : ListingOptions) :
    project.listing editor options = project.outline.map fun (index, target, entries) =>
      .ofEntries ⟨project, index, editor⟩ options target.name entries := by
  simp only [listing, outline]
  cases project.requireEditing with
  | error fault => rfl
  | ok chosen =>
    simp only [bind, Except.bind]
    cases Damage.orFault (Outline.ofArena chosen.2.blocks) with
    | error fault => rfl
    | ok entries => rfl

/-- Two listings of a project fail for the same reason, or they show the same blocks under the same
numbers in as many lines, whatever the options and the editors. What stands in a plain line stands at
the start of the other one. -/
theorem listings_alike (project : Project) (first second : Editor)
    (firstOptions secondOptions : ListingOptions) :
    (∃ fault, project.listing first firstOptions = .error fault ∧
      project.listing second secondOptions = .error fault) ∨
    ∃ one other, project.listing first firstOptions = .ok one ∧
      project.listing second secondOptions = .ok other ∧ one.Alike other ∧
      (firstOptions.Plain → one.Begins other) ∧ (secondOptions.Plain → other.Begins one) := by
  rw [listing_eq_map, listing_eq_map]
  cases project.outline with
  | error fault => exact .inl ⟨fault, rfl, rfl⟩
  | ok outline =>
    obtain ⟨index, target, entries⟩ := outline
    exact .inr ⟨_, _, rfl, rfl, Listing.alike_ofEntries _ _ _ _ _ _,
      Listing.begins_ofEntries _ _ _ _ _ _, Listing.begins_ofEntries _ _ _ _ _ _⟩

/-- An editor with a menu for every field, which cannot tell where blocks are. -/
def menuEditor : Editor where
  fieldOptions _ _ current := .ok (some [⟨current, current⟩, ⟨"Bye", "Bye"⟩])
  geometry id := .error ("no view of " ++ id)

theorem listings_alike_say :
    ∃ plain full, (sayProject "Hi").listing Editor.headless
        { withIds := false, withChoices := false } = .ok plain ∧
      (sayProject "Hi").listing menuEditor { withIds := true, withChoices := true } = .ok full ∧
      plain.lines = ["#1 looks_say [top]", "  - input MESSAGE: \"Hi\" (text)"] ∧
      plain.Alike full ∧ plain.Begins full := by
  have listed : (sayProject "Hi").listing Editor.headless
      { withIds := false, withChoices := false } = .ok _ :=
    listing_of_walkWithin rfl 4 ["#1 looks_say [top]", "  - input MESSAGE: \"Hi\" (text)"]
      [sayRecord] (by decide +kernel)
  rcases listings_alike (sayProject "Hi") Editor.headless menuEditor
      { withIds := false, withChoices := false } { withIds := true, withChoices := true } with
    ⟨fault, failed, -⟩ | ⟨plain, full, isPlain, isFull, alike, begins, -⟩
  · cases listed.symm.trans failed
  · obtain rfl := Except.ok.inj (listed.symm.trans isPlain)
    exact ⟨_, full, listed, isFull, rfl, alike, begins ⟨rfl, rfl⟩⟩

end Project

end BlockGraph
