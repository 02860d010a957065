import BlockGraph.Proofs.Outline.Drawing
import BlockGraph.Proofs.Outline.Headings

/-!
Outlines before and after a shadow is refitted into an input of a block. The forest of visible
blocks keeps its shape, and so does its drawing: the entries of that block's inputs may stand in
another order, with a new one for the refitted input, and all other entries are the same.
-/

set_option autoImplicit false

namespace BlockGraph.Outline

mutual

/-- Ids of the visible blocks in reading order. -/
def Sequence.ids : Sequence → List String
  | .done => []
  | .block id _ slots below => id :: slots.ids ++ below.ids

def Slots.ids : Slots → List String
  | .done => []
  | .input _ filling rest => filling.ids ++ rest.ids
  | .branch _ inner rest => inner.ids ++ rest.ids

def Filling.ids : Filling → List String
  | .bare => []
  | .literal _ _ => []
  | .nested inner => inner.ids

end

/-- Ids of the blocks that entries show. -/
def shownIds (entries : List Entry) : List String :=
  (entries.filterMap Entry.shown?).map Prod.fst

theorem shownIds_append (first second : List Entry) :
    shownIds (first ++ second) = shownIds first ++ shownIds second := by
  rw [shownIds, List.filterMap_append, List.map_append, shownIds, shownIds]

mutual

theorem Sequence.shownIds_entries (sequence : Sequence) (count depth : Nat) (top : Bool) :
    shownIds (sequence.entries count depth top) = sequence.ids := by
  cases sequence with
  | done => rfl
  | block id block slots below =>
    have header : shownIds (.header (count + 1) id block depth top :: fieldEntries id block depth) =
        [id] := by
      simp [shownIds, Entry.shown?, shown?_fieldEntries]
    rw [Sequence.entries, Sequence.ids, shownIds_append, shownIds_append, header,
      slots.shownIds_entries, below.shownIds_entries]
    rfl

theorem Slots.shownIds_entries (slots : Slots) (count depth : Nat) :
    shownIds (slots.entries count depth) = slots.ids := by
  cases slots with
  | done => rfl
  | input name filling rest =>
    rw [Slots.entries, Slots.ids, shownIds_append, filling.shownIds_entries, rest.shownIds_entries]
  | branch branch inner rest =>
    rw [Slots.entries, Slots.ids, shownIds_append, rest.shownIds_entries]
    exact congrArg (· ++ rest.ids) (inner.shownIds_entries count (depth + 1) false)

theorem Filling.shownIds_entries (filling : Filling) (count depth : Nat) (name : String) :
    shownIds (filling.entries count depth name) = filling.ids := by
  cases filling with
  | bare => rfl
  | literal id shadow => rfl
  | nested inner => exact inner.shownIds_entries count (depth + 1) false

end

theorem shownIds_scriptDrawings (forest : List Sequence) (count : Nat) :
    (scriptDrawings count forest).flatMap shownIds = forest.flatMap Sequence.ids := by
  induction forest generalizing count with
  | nil => rfl
  | cons script rest ih =>
    rw [scriptDrawings, List.flatMap_cons, List.flatMap_cons, script.shownIds_entries, ih]

theorem shownIds_forestEntries (forest : List Sequence) :
    shownIds (forestEntries forest) = forest.flatMap Sequence.ids := by
  have gaps : ∀ drawings : List (List Entry),
      shownIds (drawings.flatMap ([Entry.separator] ++ ·)) = drawings.flatMap shownIds := by
    intro drawings
    induction drawings with
    | nil => rfl
    | cons drawing rest ih =>
      rw [List.flatMap_cons, List.flatMap_cons, shownIds_append, ih]
      rfl
  rw [forestEntries, ← shownIds_scriptDrawings forest 0]
  cases scriptDrawings 0 forest with
  | nil => rfl
  | cons drawing rest => rw [intercalate_cons, shownIds_append, gaps, List.flatMap_cons]

/-- The drawings around that of one script depend on its size alone. -/
theorem scriptDrawings_around (left right : List Sequence) (count size : Nat) :
    ∃ first last start, ∀ script : Sequence, script.size = size →
      scriptDrawings count (left ++ script :: right) =
        first ++ script.entries start 0 true :: last := by
  induction left generalizing count with
  | nil =>
    refine ⟨[], scriptDrawings (count + size) right, count, fun script same => ?_⟩
    rw [List.nil_append, scriptDrawings, same]
    rfl
  | cons head rest ih =>
    obtain ⟨first, last, start, around⟩ := ih (count + head.size)
    refine ⟨head.entries count 0 true :: first, last, start, fun script same => ?_⟩
    rw [List.cons_append, scriptDrawings, around script same]
    rfl

/-- What stands around one drawing does not depend on it. -/
theorem intercalate_around {α : Type} (gap : List α) (left right : List (List α)) :
    ∃ front back, ∀ drawing,
      gap.intercalate (left ++ drawing :: right) = front ++ drawing ++ back := by
  cases left with
  | nil => exact ⟨[], right.flatMap (gap ++ ·), fun drawing => intercalate_cons gap drawing right⟩
  | cons first rest =>
    refine ⟨first ++ rest.flatMap (gap ++ ·) ++ gap, right.flatMap (gap ++ ·), fun drawing => ?_⟩
    rw [List.cons_append, intercalate_cons, List.flatMap_append, List.flatMap_cons]
    simp only [List.append_assoc]

/-- The header and the fields of a block, when `count` blocks have been numbered before. -/
def ownEntries (count : Nat) (id : String) (block : Block) (depth : Nat) (top : Bool) :
    List Entry :=
  .header (count + 1) id block depth top :: fieldEntries id block depth

theorem length_headings (entries : List Entry) :
    (entries.filterMap Entry.heading?).length = (shownIds entries).length := by
  have same : (fun entry : Entry => entry.heading?.isSome) = fun entry => entry.shown?.isSome := by
    funext entry
    cases entry <;> rfl
  rw [shownIds, List.length_map, List.length_filterMap_eq_countP,
    List.length_filterMap_eq_countP, same]

/-- The number of a block in an outline tells its place among the shown ones. -/
theorem getElem?_shownIds {arena : Arena} {front rest : List Entry} {count depth : Nat} {id : String}
    {block : Block} {top : Bool}
    (outlined : ofArena arena = .ok (front ++ ownEntries count id block depth top ++ rest)) :
    (shownIds (front ++ ownEntries count id block depth top ++ rest))[count]? = some id := by
  obtain ⟨opcodes, headings⟩ := headings_of_walk outlined
  rw [ownEntries, List.append_assoc, List.cons_append] at headings ⊢
  have placed : count = (shownIds front).length := by
    have number := congrArg (·[(shownIds front).length]?) headings
    simp only [List.filterMap_append, List.filterMap_cons, Entry.heading?,
      List.getElem?_zipIdx] at number
    rw [List.getElem?_append_right (length_headings front).le, length_headings, Nat.sub_self,
      List.getElem?_cons_zero] at number
    obtain ⟨opcode, -, same⟩ := Option.map_eq_some_iff.mp number.symm
    have numbers := congrArg Prod.snd same
    simp only [List.length_nil] at numbers
    omega
  rw [shownIds_append, placed, List.getElem?_append_right le_rfl, Nat.sub_self]
  rfl

/-- Inputs with what they show, and then the other slots. -/
def Slots.ofInputs (inputs : List (String × Filling)) (rest : Slots) : Slots :=
  inputs.foldr (fun input slots => .input input.1 input.2 slots) rest

/-- Number of visible blocks in inputs. -/
def inputsSize : List (String × Filling) → Nat
  | [] => 0
  | input :: rest => input.2.size + inputsSize rest

@[simp]
theorem inputsSize_append (first second : List (String × Filling)) :
    inputsSize (first ++ second) = inputsSize first + inputsSize second := by
  induction first with
  | nil => rw [List.nil_append, inputsSize, Nat.zero_add]
  | cons input rest ih => rw [List.cons_append, inputsSize, inputsSize, ih, Nat.add_assoc]

/-- The entries of each input, numbered through. -/
def inputDrawings (count depth : Nat) : List (String × Filling) → List (String × List Entry)
  | [] => []
  | (name, filling) :: rest =>
    (name, filling.entries count depth name) :: inputDrawings (count + filling.size) depth rest

section

variable (inputs : List (String × Filling)) (rest : Slots) (count depth : Nat)

theorem Slots.size_ofInputs : (ofInputs inputs rest).size = inputsSize inputs + rest.size := by
  induction inputs with
  | nil => simp [ofInputs, inputsSize]
  | cons input others ih =>
    have step : (ofInputs (input :: others) rest).size =
        input.2.size + (ofInputs others rest).size := by
      simp only [ofInputs, List.foldr_cons, Slots.size]
    rw [step, ih, inputsSize, Nat.add_assoc]

theorem Slots.entries_ofInputs : (ofInputs inputs rest).entries count depth =
    (inputDrawings count depth inputs).flatMap Prod.snd ++
      rest.entries (count + inputsSize inputs) depth := by
  induction inputs generalizing count with
  | nil => simp [ofInputs, inputDrawings, inputsSize]
  | cons input others ih =>
    have step : (ofInputs (input :: others) rest).entries count depth =
        input.2.entries count depth input.1 ++
          (ofInputs others rest).entries (count + input.2.size) depth := by
      simp only [ofInputs, List.foldr_cons, Slots.entries]
    rw [step, ih, inputDrawings, List.flatMap_cons, List.append_assoc, inputsSize, Nat.add_assoc]

theorem Slots.ids_ofInputs :
    (ofInputs inputs rest).ids = inputs.flatMap (fun input => input.2.ids) ++ rest.ids := by
  induction inputs with
  | nil => rfl
  | cons input others ih =>
    have step : (ofInputs (input :: others) rest).ids = input.2.ids ++ (ofInputs others rest).ids := by
      simp only [ofInputs, List.foldr_cons, Slots.ids]
    rw [step, ih, List.flatMap_cons, List.append_assoc]

end

theorem inputDrawings_append (first second : List (String × Filling)) (count depth : Nat) :
    inputDrawings count depth (first ++ second) =
      inputDrawings count depth first ++ inputDrawings (count + inputsSize first) depth second := by
  induction first generalizing count with
  | nil => simp [inputDrawings, inputsSize]
  | cons input rest ih =>
    rw [List.cons_append, inputDrawings, ih, inputDrawings, List.cons_append, inputsSize,
      Nat.add_assoc]

theorem fst_inputDrawings (inputs : List (String × Filling)) (count depth : Nat) :
    (inputDrawings count depth inputs).map Prod.fst = inputs.map Prod.fst := by
  induction inputs generalizing count with
  | nil => rfl
  | cons input rest ih => rw [inputDrawings, List.map_cons, List.map_cons, ih]

section

variable {arena : Arena} {block : Block} {branches : List Branch}

/-- The slots of a block are its inputs and then its branches. -/
theorem Fills.inputs {names : List String} {slots : Slots}
    (fills : Fills arena block names branches slots) :
    ∃ inputs rest, slots = .ofInputs inputs rest ∧ inputs.map Prod.fst = names ∧
      (∀ input ∈ inputs, Holds arena (block.plugged? input.1) input.2) ∧
      Fills arena block [] branches rest := by
  induction names generalizing slots with
  | nil => exact ⟨[], slots, rfl, rfl, by simp, fills⟩
  | cons name names ih =>
    cases fills with
    | @input _ _ _ _ filling others holds fills =>
      obtain ⟨inputs, rest, rfl, named, held, last⟩ := ih fills
      refine ⟨(name, filling) :: inputs, rest, rfl, by rw [List.map_cons, named], ?_, last⟩
      intro input member
      rcases List.mem_cons.mp member with rfl | later
      · exact holds
      · exact held input later

theorem fills_ofInputs {inputs : List (String × Filling)} {rest : Slots}
    (holds : ∀ input ∈ inputs, Holds arena (block.plugged? input.1) input.2)
    (fills : Fills arena block [] branches rest) :
    Fills arena block (inputs.map Prod.fst) branches (.ofInputs inputs rest) := by
  induction inputs with
  | nil => exact fills
  | cons input others ih =>
    exact .input (holds input List.mem_cons_self)
      (ih fun other later => holds other (List.mem_cons_of_mem input later))

end

/-- Blocks before and after a shadow is refitted into the input called `name` of a visible block: the
shadow was there with other fields, or the input held no block. The input may have moved, but only
past inputs without a block. -/
structure Refit where
  before : Arena
  after : Arena
  id : String
  name : String
  child : String
  block : Block
  changed : Block
  leaf : Block
  found : before.get? id = some block
  lookup : after.get? id = some changed
  structural : isStructural block = true
  opcode : changed.opcode = block.opcode
  fields : changed.fields = block.fields
  branches : changed.branches = block.branches
  next : changed.next = block.next
  stored : after.get? child = some leaf
  isShadow : Catalog.kind leaf.opcode = .shadow
  wasShadow : ∀ old, before.get? child = some old → Catalog.kind old.opcode = .shadow
  others : ∀ other, other ≠ id → other ≠ child → after.get? other = before.get? other
  alone : ∀ owner held slot, before.get? owner = some held → held.plugged? slot = some child →
    owner = id ∧ slot = name
  plugged : changed.plugged? name = some child
  kept : ∀ slot, slot ≠ name → changed.plugged? slot = block.plugged? slot
  was : block.plugged? name = none ∨ block.plugged? name = some child
  distinct : (inputNames block).Nodup
  names : ∃ left middle right, inputNames block = left ++ middle ++ name :: right ∧
    inputNames changed = left ++ name :: middle ++ right ∧
    ∀ slot ∈ middle, block.plugged? slot = none

namespace Refit

variable (refit : Refit)

/-- Every block is still there, and of the same kind. -/
theorem kind_after {other : String} {held : Block} (found : refit.before.get? other = some held) :
    ∃ now, refit.after.get? other = some now ∧ Catalog.kind now.opcode = Catalog.kind held.opcode := by
  by_cases isOwner : other = refit.id
  · subst isOwner
    obtain rfl := found_unique refit.found found
    exact ⟨refit.changed, refit.lookup, by rw [refit.opcode]⟩
  · by_cases isChild : other = refit.child
    · subst isChild
      exact ⟨refit.leaf, refit.stored, refit.isShadow.trans (refit.wasShadow held found).symm⟩
    · exact ⟨held, (refit.others other isOwner isChild).trans found, rfl⟩

theorem isStructural_after {other : String} {held : Block}
    (found : refit.before.get? other = some held) :
    ∃ now, refit.after.get? other = some now ∧ isStructural now = isStructural held := by
  obtain ⟨now, lookup, kind⟩ := refit.kind_after found
  exact ⟨now, lookup, by rw [isStructural, isStructural, kind]⟩

/-- Another visible block is the same. -/
theorem get?_structural {other : String} {held : Block} (found : refit.before.get? other = some held)
    (structural : isStructural held = true) (notOwner : other ≠ refit.id) :
    refit.after.get? other = some held := by
  refine (refit.others other notOwner ?_).trans found
  rintro rfl
  rw [isStructural_of_kind (refit.wasShadow held found) (by decide)] at structural
  cases structural

theorem not_plugged {other : String} {held : Block} (found : refit.before.get? other = some held)
    (notOwner : other ≠ refit.id) (slot : String) : held.plugged? slot ≠ some refit.child := by
  intro plugged
  exact notOwner (refit.alone other held slot found plugged).1

mutual

/-- A sequence without the refitted block is the same. -/
theorem unfolds_kept {head : Option String} {sequence : Sequence}
    (unfolds : Unfolds refit.before head sequence) (absent : refit.id ∉ sequence.ids) :
    Unfolds refit.after head sequence := by
  cases unfolds with
  | absent => exact .absent
  | hidden found isHidden =>
    obtain ⟨now, lookup, same⟩ := refit.isStructural_after found
    exact .hidden lookup (same.trans isHidden)
  | @shown other held slots below found structural fills down =>
    simp only [Sequence.ids, List.cons_append, List.mem_cons, List.mem_append, not_or] at absent
    have notOwner : other ≠ refit.id := fun same => absent.1 same.symm
    refine .shown (refit.get?_structural found structural notOwner) structural ?_
      (unfolds_kept down absent.2.2)
    exact fills_kept fills (fun slot _ => ⟨rfl, refit.not_plugged found notOwner slot⟩) rfl absent.2.1

theorem fills_kept {owner now : Block} {names : List String} {branches : List Branch}
    {slots : Slots} (fills : Fills refit.before owner names branches slots)
    (plugs : ∀ slot ∈ names, now.plugged? slot = owner.plugged? slot ∧
      owner.plugged? slot ≠ some refit.child)
    (heads : now.branches = owner.branches) (absent : refit.id ∉ slots.ids) :
    Fills refit.after now names branches slots := by
  cases fills with
  | done => exact .done
  | input holds rest =>
    simp only [Slots.ids, List.mem_append, not_or] at absent
    obtain ⟨same, apart⟩ := plugs _ List.mem_cons_self
    refine .input ?_ (fills_kept rest (fun slot later =>
      plugs slot (List.mem_cons_of_mem _ later)) heads absent.2)
    rw [same]
    exact holds_kept holds apart absent.1
  | branch inner rest =>
    simp only [Slots.ids, List.mem_append, not_or] at absent
    refine .branch ?_ (fills_kept rest plugs heads absent.2)
    rw [Block.branch, heads]
    exact unfolds_kept inner absent.1

theorem holds_kept {head : Option String} {filling : Filling}
    (holds : Holds refit.before head filling) (apart : head ≠ some refit.child)
    (absent : refit.id ∉ filling.ids) : Holds refit.after head filling := by
  cases holds with
  | empty => exact .empty
  | outOfScope found kind =>
    obtain ⟨now, lookup, same⟩ := refit.kind_after found
    exact .outOfScope lookup (same.trans kind)
  | @literal other held found kind =>
    have notOwner : other ≠ refit.id := by
      rintro rfl
      have structural := refit.structural
      rw [found_unique refit.found found, isStructural_of_kind kind (by decide)] at structural
      cases structural
    refine .literal ((refit.others other notOwner ?_).trans found) kind
    exact fun same => apart (congrArg some same)
  | nested found kind inner =>
    obtain ⟨now, lookup, same⟩ := refit.kind_after found
    exact .nested lookup (same.trans kind) (unfolds_kept inner absent)

end

/-- What the inputs of the refitted block show before and after. The refitted one, which showed no
block, shows the shadow, and it has moved past inputs that show none at most. -/
structure Exchanged (old new : List (String × Filling)) : Prop where
  oldNames : old.map Prod.fst = inputNames refit.block
  oldHolds : ∀ input ∈ old, Holds refit.before (refit.block.plugged? input.1) input.2
  newNames : new.map Prod.fst = inputNames refit.changed
  newHolds : ∀ input ∈ new, Holds refit.after (refit.changed.plugged? input.1) input.2
  moved : ∃ left middle filling right, old = left ++ middle ++ (refit.name, filling) :: right ∧
    new = left ++ (refit.name, .literal refit.child refit.leaf) :: middle ++ right ∧
    inputsSize middle = 0 ∧ filling.size = 0

/-- The refitted input shows no block before. -/
theorem size_refitted {filling : Filling}
    (holds : Holds refit.before (refit.block.plugged? refit.name) filling) : filling.size = 0 := by
  rcases refit.was with empty | held
  · rw [empty] at holds
    cases holds
    rfl
  · rw [held] at holds
    cases holds with
    | outOfScope => rfl
    | literal => rfl
    | nested found kind _ => cases (refit.wasShadow _ found).symm.trans kind

/-- Inputs that hold no block show none. -/
theorem inputsSize_of_empty {arena : Arena} {owner : Block} {inputs : List (String × Filling)}
    (holds : ∀ input ∈ inputs, Holds arena (owner.plugged? input.1) input.2)
    (empty : ∀ input ∈ inputs, owner.plugged? input.1 = none) : inputsSize inputs = 0 := by
  induction inputs with
  | nil => rfl
  | cons input rest ih =>
    have first := holds input List.mem_cons_self
    rw [empty input List.mem_cons_self] at first
    rw [inputsSize, ih (fun other later => holds other (List.mem_cons_of_mem input later))
      fun other later => empty other (List.mem_cons_of_mem input later)]
    obtain ⟨slot, filling⟩ := input
    cases first
    rfl

/-- An input that is not refitted shows what it did. -/
theorem holds_other {slot : String} {filling : Filling} (other : slot ≠ refit.name)
    (holds : Holds refit.before (refit.block.plugged? slot) filling)
    (absent : refit.id ∉ filling.ids) : Holds refit.after (refit.changed.plugged? slot) filling := by
  rw [refit.kept slot other]
  refine refit.holds_kept holds ?_ absent
  intro plugged
  exact other (refit.alone refit.id refit.block slot refit.found plugged).2

/-- The other inputs of the refitted block have other names. -/
theorem other_names {left right : List (String × Filling)} {filling : Filling}
    (names : (left ++ (refit.name, filling) :: right).map Prod.fst = inputNames refit.block) :
    ∀ input ∈ left ++ right, input.1 ≠ refit.name := by
  have distinct := refit.distinct
  rw [← names, List.map_append, List.map_cons, List.nodup_middle, ← List.map_append,
    List.nodup_cons] at distinct
  intro input member same
  have inside : input.1 ∈ (left ++ right).map Prod.fst := List.mem_map_of_mem member
  rw [same] at inside
  exact distinct.1 inside

theorem exists_exchanged {old : List (String × Filling)}
    (names : old.map Prod.fst = inputNames refit.block)
    (holds : ∀ input ∈ old, Holds refit.before (refit.block.plugged? input.1) input.2)
    (absent : ∀ input ∈ old, refit.id ∉ input.2.ids) : ∃ new, refit.Exchanged old new := by
  obtain ⟨_, _, _, whole, changed, empty⟩ := refit.names
  obtain ⟨_, _, rfl, split, tail⟩ := List.map_eq_append_iff.mp (names.trans whole)
  obtain ⟨left, middle, rfl, rfl, rfl⟩ := List.map_eq_append_iff.mp split
  obtain ⟨⟨slot, filling⟩, right, rfl, rfl, rfl⟩ := List.map_eq_cons_iff.mp tail
  have apart := refit.other_names names
  refine ⟨left ++ (refit.name, .literal refit.child refit.leaf) :: middle ++ right, names, holds,
    ?_, ?_, left, middle, filling, right, rfl, rfl, ?_, ?_⟩
  · rw [changed]
    simp
  · intro input member
    have cases : input = (refit.name, .literal refit.child refit.leaf) ∨
        input ∈ left ++ middle ++ right := by
      simp only [List.append_assoc, List.cons_append, List.mem_append, List.mem_cons] at member ⊢
      tauto
    rcases cases with rfl | other
    · rw [refit.plugged]
      exact .literal refit.stored refit.isShadow
    · have before : input ∈ left ++ middle ++ (refit.name, filling) :: right :=
        List.Sublist.subset ((List.sublist_cons_self _ _).append_left _) other
      exact refit.holds_other (apart input other) (holds input before) (absent input before)
  · refine inputsSize_of_empty (fun input member => holds input ?_) fun input member =>
      empty input.1 (List.mem_map_of_mem member)
    simp [member]
  · exact refit.size_refitted (holds (refit.name, filling) (by simp))

/-- Entries that differ only where the refitted block is drawn. -/
def Recast (first second : List Entry) : Prop :=
  ∃ front back count depth top old new, refit.Exchanged old new ∧
    first = front ++ ownEntries count refit.id refit.block depth top ++
      (inputDrawings (count + 1) depth old).flatMap Prod.snd ++ back ∧
    second = front ++ ownEntries count refit.id refit.changed depth top ++
      (inputDrawings (count + 1) depth new).flatMap Prod.snd ++ back

variable {refit}

theorem Exchanged.size_eq {old new : List (String × Filling)} (exchanged : refit.Exchanged old new) :
    inputsSize new = inputsSize old := by
  obtain ⟨left, middle, filling, right, rfl, rfl, bare, none⟩ := exchanged.moved
  simp [inputsSize, bare, none, Filling.size]

theorem Recast.within {first second : List Entry} (recast : refit.Recast first second)
    (left right : List Entry) : refit.Recast (left ++ first ++ right) (left ++ second ++ right) := by
  obtain ⟨front, back, count, depth, top, old, new, exchanged, rfl, rfl⟩ := recast
  refine ⟨left ++ front, back ++ right, count, depth, top, old, new, exchanged, ?_, ?_⟩
  · simp only [List.append_assoc]
  · simp only [List.append_assoc]

theorem Recast.append_left {first second : List Entry} (recast : refit.Recast first second)
    (left : List Entry) : refit.Recast (left ++ first) (left ++ second) := by
  have within := recast.within left []
  rwa [List.append_nil, List.append_nil] at within

variable (refit)

/-- The refitted block, drawn with other inputs. -/
theorem unfolds_refitted {slots : Slots} {below : Sequence}
    (fills : Fills refit.before refit.block (inputNames refit.block) (shownBranches refit.block) slots)
    (down : Unfolds refit.before refit.block.next below) (outside : refit.id ∉ slots.ids)
    (apart : refit.id ∉ below.ids) :
    ∃ redrawn, Unfolds refit.after (some refit.id) (.block refit.id refit.changed redrawn below) ∧
      redrawn.size = slots.size ∧ ∀ count depth top, refit.Recast
        ((Sequence.block refit.id refit.block slots below).entries count depth top)
        ((Sequence.block refit.id refit.changed redrawn below).entries count depth top) := by
  obtain ⟨old, rest, rfl, names, holds, last⟩ := fills.inputs
  rw [Slots.ids_ofInputs, List.mem_append, not_or] at outside
  obtain ⟨new, exchanged⟩ := refit.exists_exchanged names holds fun input member inside =>
    outside.1 (List.mem_flatMap.mpr ⟨input, member, inside⟩)
  have branches : shownBranches refit.changed = shownBranches refit.block := by
    simp only [shownBranches, Block.branch, refit.branches, refit.opcode]
  have structural : isStructural refit.changed = true := by
    rw [isStructural, refit.opcode]
    exact refit.structural
  have sizes := exchanged.size_eq
  refine ⟨.ofInputs new rest, .shown refit.lookup structural ?_ ?_, ?_, fun count depth top => ?_⟩
  · rw [← exchanged.newNames, branches]
    exact fills_ofInputs exchanged.newHolds
      (refit.fills_kept last (by simp) refit.branches outside.2)
  · rw [refit.next]
    exact refit.unfolds_kept down apart
  · rw [Slots.size_ofInputs, Slots.size_ofInputs, sizes]
  · refine ⟨[], rest.entries (count + 1 + inputsSize old) depth ++
      below.entries (count + 1 + (inputsSize old + rest.size)) depth false, count, depth, top, old,
      new, exchanged, ?_, ?_⟩
    · simp only [Sequence.entries, Slots.entries_ofInputs, Slots.size_ofInputs, ownEntries,
        List.nil_append, List.append_assoc]
    · simp only [Sequence.entries, Slots.entries_ofInputs, Slots.size_ofInputs, ownEntries, sizes,
        List.nil_append, List.append_assoc]

mutual

/-- A sequence that shows the refitted block is redrawn around it. -/
theorem unfolds_redrawn {head : Option String} {sequence : Sequence}
    (unfolds : Unfolds refit.before head sequence) (distinct : sequence.ids.Nodup)
    (present : refit.id ∈ sequence.ids) :
    ∃ redrawn, Unfolds refit.after head redrawn ∧ redrawn.size = sequence.size ∧
      ∀ count depth top, refit.Recast (sequence.entries count depth top)
        (redrawn.entries count depth top) := by
  cases unfolds with
  | absent => cases present
  | hidden => cases present
  | @shown other held slots below found structural fills down =>
    rw [Sequence.ids, List.cons_append] at distinct present
    obtain ⟨isNew, distinct⟩ := List.nodup_cons.mp distinct
    obtain ⟨inSlots, inBelow, disjoint⟩ := List.nodup_append.mp distinct
    -- The refitted block is this one, or it is shown once: in the slots, or below.
    by_cases isOwner : other = refit.id
    · subst isOwner
      obtain rfl := found_unique refit.found found
      rw [List.mem_append, not_or] at isNew
      obtain ⟨redrawn, shown, sizes, drawn⟩ := refit.unfolds_refitted fills down isNew.1 isNew.2
      refine ⟨_, shown, ?_, drawn⟩
      rw [Sequence.size, Sequence.size, sizes]
    · have same := refit.get?_structural found structural isOwner
      have apart := refit.not_plugged found isOwner
      rcases List.mem_append.mp ((List.mem_cons.mp present).resolve_left (Ne.symm isOwner)) with
        inside | under
      · have absent : refit.id ∉ below.ids := fun member => disjoint _ inside _ member rfl
        obtain ⟨redrawn, filled, sizes, drawn⟩ :=
          fills_redrawn fills (fun slot _ => apart slot) inSlots inside
        refine ⟨.block other held redrawn below, .shown same structural filled
          (refit.unfolds_kept down absent), ?_, fun count depth top => ?_⟩
        · rw [Sequence.size, Sequence.size, sizes]
        · rw [Sequence.entries, Sequence.entries, sizes]
          exact (drawn (count + 1) depth).within _ _
      · have absent : refit.id ∉ slots.ids := fun member => disjoint _ member _ under rfl
        obtain ⟨redrawn, unfolded, sizes, drawn⟩ := unfolds_redrawn down inBelow under
        refine ⟨.block other held slots redrawn, .shown same structural
          (refit.fills_kept fills (fun slot _ => ⟨rfl, apart slot⟩) rfl absent) unfolded, ?_,
          fun count depth top => ?_⟩
        · rw [Sequence.size, Sequence.size, sizes]
        · rw [Sequence.entries, Sequence.entries]
          exact (drawn (count + 1 + slots.size) depth false).append_left _

theorem fills_redrawn {owner : Block} {names : List String} {branches : List Branch} {slots : Slots}
    (fills : Fills refit.before owner names branches slots)
    (apart : ∀ slot ∈ names, owner.plugged? slot ≠ some refit.child) (distinct : slots.ids.Nodup)
    (present : refit.id ∈ slots.ids) :
    ∃ redrawn, Fills refit.after owner names branches redrawn ∧ redrawn.size = slots.size ∧
      ∀ count depth, refit.Recast (slots.entries count depth) (redrawn.entries count depth) := by
  cases fills with
  | done => cases present
  | @input _ name _ _ filling rest holds others =>
    rw [Slots.ids] at distinct present
    obtain ⟨inFilling, inRest, disjoint⟩ := List.nodup_append.mp distinct
    have later : ∀ slot ∈ _, owner.plugged? slot ≠ some refit.child := fun slot member =>
      apart slot (List.mem_cons_of_mem name member)
    rcases List.mem_append.mp present with inside | under
    · have absent : refit.id ∉ rest.ids := fun member => disjoint _ inside _ member rfl
      obtain ⟨redrawn, held, sizes, drawn⟩ := holds_redrawn holds inFilling inside
      refine ⟨.input name redrawn rest, .input held (refit.fills_kept others
        (fun slot member => ⟨rfl, later slot member⟩) rfl absent), ?_, fun count depth => ?_⟩
      · rw [Slots.size, Slots.size, sizes]
      · rw [Slots.entries, Slots.entries, sizes]
        exact (drawn count depth name).within [] _
    · have absent : refit.id ∉ filling.ids := fun member => disjoint _ member _ under rfl
      obtain ⟨redrawn, filled, sizes, drawn⟩ := fills_redrawn others later inRest under
      refine ⟨.input name filling redrawn, .input (refit.holds_kept holds
        (apart name List.mem_cons_self) absent) filled, ?_, fun count depth => ?_⟩
      · rw [Slots.size, Slots.size, sizes]
      · rw [Slots.entries, Slots.entries]
        exact (drawn (count + filling.size) depth).append_left _
  | @branch _ branch _ inner rest unfolds others =>
    rw [Slots.ids] at distinct present
    obtain ⟨inInner, inRest, disjoint⟩ := List.nodup_append.mp distinct
    rcases List.mem_append.mp present with inside | under
    · have absent : refit.id ∉ rest.ids := fun member => disjoint _ inside _ member rfl
      obtain ⟨redrawn, unfolded, sizes, drawn⟩ := unfolds_redrawn unfolds inInner inside
      refine ⟨.branch branch redrawn rest, .branch unfolded
        (refit.fills_kept others (by simp) rfl absent), ?_, fun count depth => ?_⟩
      · rw [Slots.size, Slots.size, sizes]
      · rw [Slots.entries, Slots.entries, sizes]
        exact (drawn count (depth + 1) false).within [.branch branch depth] _
    · have absent : refit.id ∉ inner.ids := fun member => disjoint _ member _ under rfl
      obtain ⟨redrawn, filled, sizes, drawn⟩ := fills_redrawn others (by simp) inRest under
      refine ⟨.branch branch inner redrawn, .branch (refit.unfolds_kept unfolds absent) filled, ?_,
        fun count depth => ?_⟩
      · rw [Slots.size, Slots.size, sizes]
      · rw [Slots.entries, Slots.entries]
        exact (drawn (count + inner.size) depth).append_left _

theorem holds_redrawn {head : Option String} {filling : Filling}
    (holds : Holds refit.before head filling) (distinct : filling.ids.Nodup)
    (present : refit.id ∈ filling.ids) :
    ∃ redrawn, Holds refit.after head redrawn ∧ redrawn.size = filling.size ∧
      ∀ count depth name, refit.Recast (filling.entries count depth name)
        (redrawn.entries count depth name) := by
  cases holds with
  | empty => cases present
  | outOfScope => cases present
  | literal => cases present
  | nested found kind unfolds =>
    obtain ⟨now, lookup, same⟩ := refit.kind_after found
    obtain ⟨redrawn, unfolded, sizes, drawn⟩ := unfolds_redrawn unfolds distinct present
    exact ⟨.nested redrawn, .nested lookup (same.trans kind) unfolded, sizes, fun count depth name =>
      (drawn count (depth + 1) false).append_left [.input name depth]⟩

end

theorem scripts_kept {roots : List String} {forest : List Sequence}
    (scripts : Scripts refit.before roots forest) (absent : refit.id ∉ forest.flatMap Sequence.ids) :
    Scripts refit.after roots forest := by
  induction scripts with
  | done => exact .done
  | hidden found isHidden _ ih =>
    obtain ⟨now, lookup, same⟩ := refit.isStructural_after found
    exact .hidden lookup (same.trans isHidden) (ih absent)
  | shown found structural unfolds _ ih =>
    rw [List.flatMap_cons, List.mem_append, not_or] at absent
    obtain ⟨now, lookup, same⟩ := refit.isStructural_after found
    exact .shown lookup (same.trans structural) (refit.unfolds_kept unfolds absent.1) (ih absent.2)

/-- One script is redrawn. -/
theorem scripts_redrawn {roots : List String} {forest : List Sequence}
    (scripts : Scripts refit.before roots forest) (distinct : (forest.flatMap Sequence.ids).Nodup)
    (present : refit.id ∈ forest.flatMap Sequence.ids) :
    ∃ left script right redrawn, forest = left ++ script :: right ∧
      Scripts refit.after roots (left ++ redrawn :: right) ∧ redrawn.size = script.size ∧
      ∀ count depth top, refit.Recast (script.entries count depth top)
        (redrawn.entries count depth top) := by
  induction scripts with
  | done => cases present
  | hidden found isHidden _ ih =>
    obtain ⟨left, script, right, redrawn, split, others, rest⟩ := ih distinct present
    obtain ⟨now, lookup, same⟩ := refit.isStructural_after found
    exact ⟨left, script, right, redrawn, split, .hidden lookup (same.trans isHidden) others, rest⟩
  | @shown root block script roots forest found structural unfolds others ih =>
    rw [List.flatMap_cons] at distinct present
    obtain ⟨inScript, inOthers, disjoint⟩ := List.nodup_append.mp distinct
    obtain ⟨now, lookup, same⟩ := refit.isStructural_after found
    have visible := same.trans structural
    rcases List.mem_append.mp present with inside | later
    · have absent : refit.id ∉ forest.flatMap Sequence.ids := fun member =>
        disjoint _ inside _ member rfl
      obtain ⟨redrawn, unfolded, sizes, drawn⟩ := refit.unfolds_redrawn unfolds inScript inside
      exact ⟨[], script, forest, redrawn, rfl,
        .shown lookup visible unfolded (refit.scripts_kept others absent), sizes, drawn⟩
    · have absent : refit.id ∉ script.ids := fun member => disjoint _ member _ later rfl
      obtain ⟨left, changed, right, redrawn, rfl, redrawnOthers, rest⟩ := ih inOthers later
      exact ⟨script :: left, changed, right, redrawn, rfl,
        .shown lookup visible (refit.unfolds_kept unfolds absent) redrawnOthers, rest⟩

/-- The outlines before and after differ only where the refitted block is drawn. -/
theorem recast_ofArena {first second : List Entry}
    (scripts : refit.after.scripts = refit.before.scripts)
    (outlined : ofArena refit.before = .ok first) (again : ofArena refit.after = .ok second)
    (distinct : (shownIds first).Nodup) (present : refit.id ∈ shownIds first) :
    refit.Recast first second := by
  obtain ⟨forest, unique, rfl⟩ := forest_of_ofArena outlined
  obtain ⟨forest', unique', rfl⟩ := forest_of_ofArena again
  rw [shownIds_forestEntries] at distinct present
  obtain ⟨left, script, right, redrawn, rfl, unfolded, sizes, drawn⟩ :=
    refit.scripts_redrawn ((unique forest).mpr rfl) distinct present
  rw [← scripts] at unfolded
  obtain rfl := (unique' _).mp unfolded
  obtain ⟨before, after, start, drawings⟩ := scriptDrawings_around left right 0 script.size
  obtain ⟨front, back, around⟩ := intercalate_around [Entry.separator] before after
  rw [forestEntries, forestEntries, drawings script rfl, drawings redrawn sizes, around, around]
  exact (drawn start 0 true).within front back

/-- The drawing of an input of the refitted block, that of the refitted input being a literal. -/
def redraw (depth : Nat) (input : String × List Entry) : String × List Entry :=
  if input.1 = refit.name then (refit.name, [.literal refit.name refit.child refit.leaf depth])
  else input

variable {refit}

/-- Other inputs are drawn as they are. -/
theorem map_redraw {inputs : List (String × Filling)}
    (apart : ∀ input ∈ inputs, input.1 ≠ refit.name) (count depth : Nat) :
    (inputDrawings count depth inputs).map (refit.redraw depth) =
      inputDrawings count depth inputs := by
  have same : ∀ drawing ∈ inputDrawings count depth inputs, refit.redraw depth drawing = drawing := by
    intro drawing member
    have named := List.mem_map_of_mem (f := Prod.fst) member
    rw [fst_inputDrawings] at named
    obtain ⟨input, inside, same⟩ := List.mem_map.mp named
    rw [redraw, if_neg (same ▸ apart input inside)]
  rw [List.map_congr_left same, List.map_id']

/-- The inputs of the refitted block are drawn as before, but for the refitted one and the order. -/
theorem Exchanged.drawings {old new : List (String × Filling)} (exchanged : refit.Exchanged old new)
    (count depth : Nat) :
    (inputDrawings count depth new).Perm
      ((inputDrawings count depth old).map (refit.redraw depth)) := by
  have names := exchanged.oldNames
  obtain ⟨left, middle, filling, right, rfl, rfl, bare, none⟩ := exchanged.moved
  have apart := refit.other_names names
  simp only [List.mem_append, or_imp, forall_and] at apart
  obtain ⟨⟨inLeft, inMiddle⟩, inRight⟩ := apart
  have literal : ∀ entries, refit.redraw depth (refit.name, entries) =
      (refit.name, [.literal refit.name refit.child refit.leaf depth]) := fun _ => if_pos rfl
  simp only [List.append_assoc, List.cons_append, inputDrawings_append, inputDrawings,
    List.map_append, List.map_cons, bare, none, Nat.add_zero, Filling.size, Filling.entries,
    map_redraw inLeft, map_redraw inMiddle, map_redraw inRight, literal]
  exact List.perm_middle.symm.append_left _

end Refit

end BlockGraph.Outline
