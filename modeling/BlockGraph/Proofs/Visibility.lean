import BlockGraph.Proofs.Listing.Rows
import BlockGraph.Proofs.Mentions
import BlockGraph.Proofs.Numbering
import BlockGraph.Proofs.Outline.Redrawing
import BlockGraph.Proofs.Repetition

/-!
Writes to inputs as listings show them. A write that goes to an input refits the shadow of that
input, so a listing is redrawn in one place: the line of the input shows the value that the shadow
holds, and all other lines are the same.
-/

set_option autoImplicit false

namespace BlockGraph

open FieldWrite Outline Revision

namespace Block

variable {block : Block} {name shadow slot : String} {inputs : List Input}

/-- The input of that name has the other block plugged in or as its shadow. -/
def HoldsIn (block : Block) (name id : String) : Prop :=
  ∃ input ∈ block.inputs, input.name = name ∧ (input.block = some id ∨ input.shadow = some id)

theorem holdsIn_of_input? {input : Input} {id : String} (found : block.input? name = some input)
    (has : input.block = some id ∨ input.shadow = some id) : block.HoldsIn name id :=
  ⟨input, List.mem_of_find?_eq_some found, by simpa using List.find?_some found, has⟩

theorem holdsIn_of_plugged? {id : String} (plugged : block.plugged? name = some id) :
    block.HoldsIn name id := by
  obtain ⟨input, found, inside⟩ := Option.bind_eq_some_iff.mp plugged
  exact holdsIn_of_input? found (.inl inside)

/-- A block that owns no other twice holds it in one input only. -/
theorem HoldsIn.unique (distinct : block.childIds.Nodup) {id : String} (first : block.HoldsIn name id)
    (second : block.HoldsIn slot id) : slot = name := by
  obtain ⟨input, member, named, has⟩ := first
  obtain ⟨other, otherMember, otherNamed, otherHas⟩ := second
  have same := eq_of_mem_childIds distinct member otherMember (Input.mem_childIds_iff.mpr has)
    (Input.mem_childIds_iff.mpr otherHas)
  rw [← named, ← otherNamed, same]

theorem HoldsIn.mem_childIds {id : String} (holds : block.HoldsIn name id) : id ∈ block.childIds := by
  obtain ⟨input, member, -, has⟩ := holds
  exact mem_childIds_iff.mpr (.inl ⟨input, member, has⟩)

/-- An input that a shadow is plugged into held no block. -/
theorem plugged?_before (filled : Input.Filled name shadow block.inputs inputs) :
    block.plugged? name = none := by
  obtain ⟨left, right, old, before, -, apart, bare, last⟩ := filled
  have passed : left.find? (fun input => input.name = name) = none := by
    apply List.find?_eq_none.mpr
    intro input member
    simpa using apart input member
  rw [plugged?, input?, before]
  cases old with
  | none => simp [last rfl, passed]
  | some input => simp [List.find?_append, passed, bare input rfl]

/-- The other inputs hold what they did. -/
theorem plugged?_other (filled : Input.Filled name shadow block.inputs inputs) (other : slot ≠ name) :
    ({ block with inputs := inputs } : Block).plugged? slot = block.plugged? slot := by
  obtain ⟨left, right, old, before, rfl, -, bare, -⟩ := filled
  have passed : old.toList.find? (fun input => input.name = slot) = none := by
    cases old with
    | none => rfl
    | some input => simp [bare input rfl, Ne.symm other]
  simp [plugged?, input?, before, List.find?_append, passed, Ne.symm other]

end Block

namespace Outline

variable {block : Block} {name shadow : String} {inputs : List Input}

/-- Of the expected inputs that are missing, one less is missing when it is stored. -/
theorem filter_missing {stored expected first others : List String}
    (split : expected.filter (fun slot => !stored.contains slot) = first ++ name :: others)
    (distinct : (expected.filter fun slot => !stored.contains slot).Nodup) :
    expected.filter (fun slot => !(stored ++ [name]).contains slot) = first ++ others := by
  rw [split, List.nodup_middle, List.nodup_cons] at distinct
  have fewer : expected.filter (fun slot => !(stored ++ [name]).contains slot) =
      (first ++ name :: others).filter (fun slot => slot ≠ name) := by
    rw [← split, List.filter_filter]
    apply List.filter_congr
    intro slot _
    simp [Bool.and_comm]
  have kept : (first ++ others).filter (fun slot => slot ≠ name) = first ++ others := by
    apply List.filter_eq_self.mpr
    intro slot member
    simp only [decide_eq_true_eq]
    rintro rfl
    exact distinct.1 member
  rw [fewer, List.filter_append, List.filter_cons_of_neg (by simp), ← List.filter_append, kept]

/-- An input that a shadow is plugged into stays in its place, or it comes up behind the stored ones
and passes expected inputs that are missing. -/
theorem inputNames_filled (filled : Input.Filled name shadow block.inputs inputs)
    (listed : name ∈ inputNames block) (distinct : (inputNames block).Nodup) :
    ∃ left middle right, inputNames block = left ++ middle ++ name :: right ∧
      inputNames { block with inputs := inputs } = left ++ name :: middle ++ right ∧
      ∀ slot ∈ middle, block.plugged? slot = none := by
  obtain ⟨left, right, old, before, rfl, apart, bare, last⟩ := filled
  cases old with
  | some input =>
    have stored : (left ++ ⟨name, some shadow, some shadow⟩ :: right).map Input.name =
        block.inputs.map Input.name := by
      simp [before, (bare input rfl).1]
    obtain ⟨first, others, split⟩ := List.append_of_mem listed
    refine ⟨first, [], others, by rw [split, List.append_nil], ?_, by simp⟩
    have same : inputNames { block with inputs := left ++ ⟨name, some shadow, some shadow⟩ :: right } =
        inputNames block := by
      simp only [inputNames, stored]
    rw [same, split, List.append_assoc]
    rfl
  | none =>
    obtain rfl := last rfl
    rw [Option.toList_none, List.append_nil, List.append_nil] at before
    subst before
    have missing : name ∉ block.inputs.map Input.name := by
      intro stored
      obtain ⟨input, member, named⟩ := List.mem_map.mp stored
      exact apart input member named
    rw [inputNames] at listed distinct
    obtain ⟨first, others, split⟩ :=
      List.append_of_mem ((List.mem_append.mp listed).resolve_left missing)
    have absent : ∀ slot ∈ first, slot ∉ block.inputs.map Input.name := by
      intro slot member
      have inside : slot ∈ first ++ name :: others := List.mem_append_left _ member
      rw [← split, List.mem_filter] at inside
      simpa using inside.2
    refine ⟨block.inputs.map Input.name, first, others, ?_, ?_, fun slot member =>
      plugged?_of_absent (absent slot member)⟩
    · rw [inputNames, split, List.append_assoc]
    · have rest := filter_missing split (List.nodup_append.mp distinct).2.1
      simp only [inputNames, List.map_append, List.map_cons, List.map_nil, rest, List.append_assoc,
        List.cons_append, List.nil_append]

end Outline

/-- A shadow whose only field is the one that holds its value. -/
def Block.Lone (shadow : Block) : Prop :=
  ∃ key, Catalog.primaryField? shadow.opcode = some key ∧ shadow.fields.keys = [key]

theorem Block.Lone.withField {shadow : Block} (lone : shadow.Lone) {key : String}
    (known : shadow.fields.contains key = true) (field : Field) :
    Catalog.primaryField? shadow.opcode = some key ∧
      (shadow.withField key field).fields = (∅ : Dict Field).insert key field := by
  obtain ⟨only, primary, keys⟩ := lone
  rw [Dict.contains_iff_mem_keys, keys, List.mem_singleton] at known
  subst known
  refine ⟨primary, ?_⟩
  apply Dict.ext_get?
  intro other
  rw [Block.withField, Dict.get?_insert, Dict.get?_insert]
  split
  · rfl
  · rename_i different
    have absent : other ∉ shadow.fields.keys := by simpa [keys] using Ne.symm different
    rw [← Dict.contains_iff_mem_keys, Dict.contains, Bool.not_eq_true, Option.isSome_eq_false_iff,
      Option.isNone_iff_eq_none] at absent
    rw [absent]
    rfl

/-- An input of a block holds a shadow, whose only field is the one that holds its value. -/
structure Arena.HoldsLiteral (arena : Arena) (id name child : String) (leaf : Block) (key : String)
    (field : Field) : Prop where
  plugged : ∃ block, arena.get? id = some block ∧ block.plugged? name = some child
  stored : arena.get? child = some leaf
  primary : Catalog.primaryField? leaf.opcode = some key
  fields : leaf.fields = (∅ : Dict Field).insert key field

namespace FieldWrite

variable {arena blocks before after : Arena} {id name child key : String} {slot : Slot}
  {block changed leaf : Block} {field : Field} {inputs : List Input}

/-- A new shadow has no other field than the one that holds its value. -/
theorem lone_newShadow {opcode input shadow template : String}
    (made : shadowTemplate opcode input = .ok (shadow, key, template)) :
    (Block.newShadow id shadow key template).Lone :=
  ⟨key, primaryField?_shadowTemplate made, rfl⟩

/-- The slot for a name that is no field of a visible block: a shadow that the input has, or a new
one. -/
theorem Resolves.shadow (resolves : Resolves arena id name slot blocks)
    (found : arena.get? id = some block) (notField : block.fields.contains name = false)
    (structural : isStructural block = true) :
    ∃ leaf, blocks.get? slot.block = some leaf ∧ slot.block ≠ id ∧
      shadowField name slot.block leaf = .ok slot.field ∧
      (arena.get? slot.block = some leaf ∧ block.HoldsIn name slot.block ∨
        arena.get? slot.block = none ∧ leaf.Lone) := by
  have apart {child : String} {leaf : Block} {arena : Arena} (owner : arena.get? id = some block)
      (stored : arena.get? child = some leaf) (chosen : shadowField name child leaf = .ok slot.field) :
      child ≠ id := by
    rintro rfl
    rw [found_unique owner stored,
      isStructural_of_kind (contains_of_shadowField chosen).1 (by decide)] at structural
    cases structural
  cases resolves with
  | own same isField =>
    rw [found_unique same found, notField] at isField
    cases isField
  | @plugged owner held child field same _ plugged stored chosen =>
    obtain rfl := found_unique found same
    exact ⟨held, stored, apart found stored chosen, chosen,
      .inl ⟨stored, Block.holdsIn_of_plugged? plugged⟩⟩
  | @filled base owner leaf shadow field plug same _ empty lookups scripts origin chosen =>
    obtain rfl := found_unique found same
    have stored : base.get? shadow = some leaf := by rw [lookups, if_pos rfl]
    have kept := get?_base lookups (origin.imp And.left And.left) found
    have different := apart kept stored chosen
    refine ⟨leaf, ?_, different, chosen, ?_⟩
    · rw [Arena.get?_modifyBlock, if_neg different, stored]
    · rcases origin with ⟨held, owned⟩ | ⟨missing, opcode, template, rfl, made⟩
      · obtain ⟨input, first, inside⟩ := Option.bind_eq_some_iff.mp owned
        exact .inl ⟨held, Block.holdsIn_of_input? first (.inr inside)⟩
      · exact .inr ⟨missing, lone_newShadow made⟩

/-- The block that is written to keeps all but its inputs when the write goes to another one. -/
theorem Wrote.owner (wrote : Wrote before after id name child key field)
    (found : before.get? id = some block) (apart : child ≠ id) :
    ∃ inputs, after.get? id = some { block with inputs := inputs } ∧
      (inputs = block.inputs ∨ Input.Filled name child block.inputs inputs) := by
  obtain ⟨inputs, lookup, filled⟩ := wrote.kept id block found
  rw [if_neg (Ne.symm apart)] at lookup
  exact ⟨inputs, lookup, filled.imp_right And.right⟩

theorem Wrote.plugged (wrote : Wrote before after id name child key field) (apart : child ≠ id)
    (lookup : after.get? id = some changed) : changed.plugged? name = some child := by
  obtain ⟨same, known, plugged⟩ := wrote.place.resolve_left apart
  obtain rfl := found_unique lookup known
  exact plugged

/-- A shadow of one input of a block is plugged in nowhere else. -/
theorem alone_of_wellLinked (linked : arena.WellLinked) (found : arena.get? id = some block)
    (origin : block.HoldsIn name child ∨ arena.get? child = none) {owner position : String}
    {held : Block} (stored : arena.get? owner = some held)
    (plugged : held.plugged? position = some child) : owner = id ∧ position = name := by
  have inside : child ∈ arena.childrenAt owner := by
    rw [Arena.childrenAt_of_get? stored]
    exact Block.mem_childIds_of_plugged? plugged
  rcases origin with holds | missing
  · have own : child ∈ arena.childrenAt id := by
      rw [Arena.childrenAt_of_get? found]
      exact holds.mem_childIds
    obtain rfl := Option.some.inj ((linked.forest.parent_of_mem inside).symm.trans
      (linked.forest.parent_of_mem own))
    obtain rfl := found_unique found stored
    have distinct := linked.forest.distinct owner
    rw [Arena.childrenAt_of_get? found] at distinct
    exact ⟨rfl, holds.unique distinct (Block.holdsIn_of_plugged? plugged)⟩
  · obtain ⟨leaf, lookup⟩ := linked.found_of_mem inside
    cases missing.symm.trans lookup

/-- A write to an input refits a shadow. -/
def Wrote.refit (wrote : Wrote before after id name child key field) (linked : before.WellLinked)
    (found : before.get? id = some block) (structural : isStructural block = true)
    (listed : name ∈ inputNames block) (apart : child ≠ id)
    (lookup : after.get? id = some { block with inputs := inputs })
    (filled : inputs = block.inputs ∨ Input.Filled name child block.inputs inputs)
    (stored : after.get? child = some leaf) (isShadow : Catalog.kind leaf.opcode = .shadow)
    (origin : block.HoldsIn name child ∨ before.get? child = none) : Refit where
  before := before
  after := after
  id := id
  name := name
  child := child
  block := block
  changed := { block with inputs := inputs }
  leaf := leaf
  found := found
  lookup := lookup
  structural := structural
  opcode := rfl
  fields := rfl
  branches := rfl
  next := rfl
  stored := stored
  isShadow := isShadow
  wasShadow old known := by
    obtain ⟨_, changed, -⟩ := wrote.kept child old known
    obtain rfl := found_unique stored changed
    exact isShadow
  others other notOwner notChild := by
    cases known : before.get? other with
    | none =>
      cases new : after.get? other with
      | none => rfl
      | some block => exact absurd (wrote.new other block known new).1 notChild
    | some old =>
      obtain ⟨_, changed, same | ⟨isOwner, -⟩⟩ := wrote.kept other old known
      · rw [changed, same, if_neg notChild]
      · exact absurd isOwner notOwner
  alone owner held position known plugged :=
    alone_of_wellLinked linked found origin known plugged
  plugged := wrote.plugged apart lookup
  kept position other := by
    rcases filled with rfl | filled
    · rfl
    · exact Block.plugged?_other filled other
  was := by
    rcases filled with rfl | filled
    · exact .inr (wrote.plugged apart lookup)
    · exact .inl (Block.plugged?_before filled)
  distinct := nodup_inputNames (linked.tidy.blocks id block found).distinctInputs
  names := by
    have distinct := nodup_inputNames (linked.tidy.blocks id block found).distinctInputs
    rcases filled with rfl | filled
    · obtain ⟨left, right, split⟩ := List.append_of_mem listed
      refine ⟨left, [], right, by rw [split, List.append_nil], ?_, by simp⟩
      rw [List.append_assoc]
      exact split
    · exact inputNames_filled filled listed distinct

end FieldWrite

namespace Outline

/-- How a shadow of a type shows its value: text in quotes, a number without blanks around it unless
nothing remains, anything else as it is, and then the type. -/
def valueText (opcode value : String) : String :=
  match Catalog.LiteralType.ofOpcode? opcode with
  | some .text => Text.quote value ++ " (" ++ opcode ++ ")"
  | some .color | none => value ++ " (" ++ opcode ++ ")"
  | some _ =>
    if Text.trim value = "" then opcode else Text.trim value ++ " (" ++ opcode ++ ")"

theorem shadowText_lone {shadow : Block} {key : String} {field : Field}
    (primary : Catalog.primaryField? shadow.opcode = some key)
    (fields : shadow.fields = (∅ : Dict Field).insert key field) :
    shadowText shadow = valueText shadow.opcode field.value := by
  have first : shadow.firstField? = some (key, field) := by
    rw [Block.firstField?, fields]
    rfl
  unfold shadowText shadowValue? valueText
  cases type : Catalog.LiteralType.ofOpcode? shadow.opcode with
  | none =>
    simp only [first, Option.map_some]
    rfl
  | some literal =>
    have opcode : literal.opcode = shadow.opcode := by simpa using List.find?_some type
    have same : literal.field = key := by
      rw [← opcode, Catalog.primaryField?_literal] at primary
      exact Option.some.inj primary
    have held : shadow.fields.get? literal.field = some field := by
      rw [fields, same, Dict.get?_insert_self]
    cases literal with
    | text | color =>
      rw [Catalog.LiteralType.field] at held
      simp only [held, Option.map_some]
      rfl
    | number | positiveNumber | wholeNumber | integer | angle =>
      change shadow.fields.get? "NUM" = some field at held
      by_cases blank : Text.trim field.value = ""
      · simp [held, blank, Option.filter_some]
      · simp only [held, Option.map_some, Option.filter_some, ne_eq, blank, not_false_eq_true,
          decide_true, if_true, if_false]
        rfl

/-- The line of an entry without choices. -/
def bareLine (options : ListingOptions) (entry : Entry) : String :=
  plainLine entry ++ idSuffix options entry

theorem line_of_bare {options : ListingOptions} (bare : options.withChoices = false)
    (context : ChoiceContext) : line context options = bareLine options := by
  funext entry
  simp [line, choiceSuffix, bare, bareLine]

/-- The line of an input that shows a text. -/
def inputLine (depth : Nat) (name text : String) : String :=
  propertyIndent depth ++ s!"- input {name}: " ++ text

theorem bareLine_literal (options : ListingOptions) (name id : String) (shadow : Block) (depth : Nat) :
    bareLine options (.literal name id shadow depth) = inputLine depth name (shadowText shadow) := by
  simp [bareLine, plainLine, idSuffix, inputLine]

/-- The lines of the header and the fields of a block. -/
def ownLines (options : ListingOptions) (count : Nat) (id : String) (block : Block) (depth : Nat)
    (top : Bool) : List String :=
  (ownEntries count id block depth top).map (bareLine options)

/-- The lines of each input of a block. -/
def inputLines (options : ListingOptions) (count depth : Nat) (shown : List (String × Filling)) :
    List (String × List String) :=
  (inputDrawings (count + 1) depth shown).map fun input => (input.1, input.2.map (bareLine options))

theorem flatMap_inputLines (options : ListingOptions) (count depth : Nat)
    (shown : List (String × Filling)) :
    (inputLines options count depth shown).flatMap Prod.snd =
      ((inputDrawings (count + 1) depth shown).flatMap Prod.snd).map (bareLine options) := by
  rw [inputLines, List.map_flatMap, List.flatMap_map]

end Outline

namespace Listing

/-- A listing without choices prints the entries of an outline. -/
structure Prints (options : ListingOptions) (entries : List Entry) (listing : Listing) : Prop where
  lines : listing.lines = entries.map (bareLine options)
  numbering : listing.numbering = shownIds entries

/-- A block in a listing: its number and its depth, what its inputs show, and the lines above its
header and below its inputs. -/
structure Excerpt (options : ListingOptions) (arena : Arena) (id : String) (listing : Listing) where
  block : Block
  found : arena.get? id = some block
  position : Nat
  numbered : listing.numbering[position]? = some id
  depth : Nat
  top : Bool
  shown : List (String × Filling)
  names : shown.map Prod.fst = inputNames block
  holds : ∀ input ∈ shown, Holds arena (block.plugged? input.1) input.2
  above : List String
  below : List String
  lines : listing.lines = above ++ ownLines options position id block depth top ++
    (inputLines options position depth shown).flatMap Prod.snd ++ below

namespace Excerpt

variable {options : ListingOptions} {before after : Arena} {id : String} {old new : Listing}

def own (excerpt : old.Excerpt options before id) : List String :=
  ownLines options excerpt.position id excerpt.block excerpt.depth excerpt.top

def inputs (excerpt : old.Excerpt options before id) : List (String × List String) :=
  inputLines options excerpt.position excerpt.depth excerpt.shown

/-- The same lines but for one input, which shows another text. The inputs may stand in another
order. -/
structure Revised (first : old.Excerpt options before id) (second : new.Excerpt options after id)
    (name text : String) : Prop where
  above : second.above = first.above
  own : second.own = first.own
  inputs : second.inputs.Perm (first.inputs.map fun input =>
    if input.1 = name then (name, [inputLine first.depth name text]) else input)
  below : second.below = first.below

end Excerpt

end Listing

namespace Outline

/-- The lines of an outline with a refitted shadow. -/
theorem Refit.excerpts (refit : Refit) {first second : List Entry}
    (recast : refit.Recast first second) (outlined : ofArena refit.before = .ok first)
    (again : ofArena refit.after = .ok second) {options : ListingOptions} {old new : Listing}
    (oldPrints : old.Prints options first) (newPrints : new.Prints options second) :
    ∃ (one : old.Excerpt options refit.before refit.id)
      (other : new.Excerpt options refit.after refit.id),
      one.Revised other refit.name (shadowText refit.leaf) := by
  obtain ⟨front, back, count, depth, top, oldShown, newShown, exchanged, rfl, rfl⟩ := recast
  refine ⟨⟨refit.block, refit.found, count, ?_, depth, top, oldShown, exchanged.oldNames,
    exchanged.oldHolds, front.map (bareLine options), back.map (bareLine options), ?_⟩,
    ⟨refit.changed, refit.lookup, count, ?_, depth, top, newShown, exchanged.newNames,
    exchanged.newHolds, front.map (bareLine options), back.map (bareLine options), ?_⟩,
    ⟨rfl, ?_, ?_, rfl⟩⟩
  · rw [oldPrints.numbering, List.append_assoc]
    exact getElem?_shownIds (List.append_assoc .. ▸ outlined)
  · rw [oldPrints.lines, List.map_append, List.map_append, List.map_append, flatMap_inputLines,
      ownLines]
  · rw [newPrints.numbering, List.append_assoc]
    exact getElem?_shownIds (List.append_assoc .. ▸ again)
  · rw [newPrints.lines, List.map_append, List.map_append, List.map_append, flatMap_inputLines,
      ownLines]
  · simp only [Listing.Excerpt.own, ownLines, ownEntries, fieldEntries, List.map_cons, bareLine,
      plainLine, idSuffix, refit.opcode, refit.fields]
  · have drawn := (exchanged.drawings (count + 1) depth).map fun input =>
      (input.1, input.2.map (bareLine options))
    refine drawn.trans (.of_eq ?_)
    simp only [Listing.Excerpt.inputs, inputLines, List.map_map]
    apply List.map_congr_left
    intro input _
    simp only [Function.comp_apply, Refit.redraw]
    split
    · simp only [List.map_cons, List.map_nil, bareLine_literal]
    · rfl

end Outline

/-- A field that has a value as its text, or else stands for the menu entry with that label or
code. -/
def Field.Expresses (options : List MenuOption) (value : String) (field : Field) : Prop :=
  field.value = value ∨ ∃ option ∈ options, option.label = value ∧ field = .plain option.code ∨
    option.code = value ∧ field = .reference option.label option.code

namespace FieldWrite

/-- What is written expresses the value, with the choices that the project offers. -/
theorem expresses_of_registers {context : ChoiceContext} {opcode current value reported : String}
    {slot : Slot} {content : Content} {field : Field} {project middle : Project}
    (interpreted : interpret context opcode current slot value = .ok content)
    (registers : Registers project content field reported middle) :
    field.Expresses ((context.options? opcode slot.field current slot.block).getD []) value := by
  unfold interpret at interpreted
  split at interpreted
  · split at interpreted
    · cases interpreted
    · cases interpreted
      cases registers with
      | known _ => exact .inl rfl
      | created _ _ => exact .inl rfl
  · simp only at interpreted
    split at interpreted
    · split at interpreted
      · rename_i option chosen
        cases interpreted
        cases registers
        rcases Option.or_eq_some_iff.mp chosen with labelled | ⟨-, coded⟩
        · have named : option.label = value := by simpa using List.find?_some labelled
          exact .inl named
        · exact .inr ⟨option, List.mem_of_find?_eq_some coded, .inr
            ⟨by simpa using List.find?_some coded, rfl⟩⟩
      · cases interpreted
    · cases interpreted
      cases registers
      cases labelled : ((context.options? opcode slot.field current slot.block).getD []).find?
          fun option => option.label = value with
      | none => exact .inl rfl
      | some option =>
        exact .inr ⟨option, List.mem_of_find?_eq_some labelled, .inl
          ⟨by simpa using List.find?_some labelled, rfl⟩⟩

/-- No choices are offered for a literal. -/
theorem options?_literal (project : Project) (index : Nat) (type : Catalog.LiteralType)
    (current block : String) :
    (⟨project, index, .headless⟩ : ChoiceContext).options? type.opcode type.field current block =
      none := by
  have fixed : Catalog.fixedMenu? type.opcode type.field = none := by
    cases type <;> decide +kernel
  have sprites : Catalog.spriteMenu? type.field = none := by
    cases type <;> decide +kernel
  simp only [ChoiceContext.options?, Editor.liveOptions?, Editor.headless, ChoiceContext.groups?,
    fixed, sprites]
  cases project.targets[index]? with
  | none => rfl
  | some target => cases type <;> rfl

end FieldWrite

namespace FieldWrite.Writing

variable {before after : Project} {id name value : String} {update : FieldUpdate} {block : Block}

section

variable {editor : Editor} (writing : Writing editor before id name value update after)

/-- The shadow that is written to, with the field that is written. -/
def leaf : Block :=
  writing.owner.withField writing.slot.field writing.field

variable (found : writing.target.blocks.get? id = some block)
  (structural : isStructural block = true) (notField : block.fields.contains name = false)

include found structural notField

/-- The input holds what was written, if its shadow had no other field. -/
theorem holdsLiteral
    (lone : ∀ child held, block.HoldsIn name child → writing.target.blocks.get? child = some held →
      Catalog.kind held.opcode = .shadow → held.Lone) :
    writing.final.HoldsLiteral id name writing.slot.block writing.leaf update.field writing.field := by
  obtain ⟨owner, stored, apart, chosen, origin⟩ := writing.resolves.shadow found notField structural
  obtain rfl := found_unique writing.stored stored
  obtain ⟨isShadow, known⟩ := contains_of_shadowField chosen
  have isLone : writing.owner.Lone := by
    rcases origin with ⟨old, holds⟩ | ⟨-, isNew⟩
    · exact lone writing.slot.block writing.owner holds old isShadow
    · exact isNew
  obtain ⟨primary, fields⟩ := isLone.withField known writing.field
  rw [writing.slotField]
  exact ⟨(writing.resolves.wrote writing.field).place.resolve_left apart, writing.get?_final, primary,
    fields⟩

/-- Listings before and after show the block in the same place. -/
theorem excerpts (linked : writing.target.blocks.WellLinked) (named : name ∈ inputNames block)
    {first second : List Entry} (outlined : ofArena writing.target.blocks = .ok first)
    (again : ofArena writing.final = .ok second) {options : ListingOptions} {old new : Listing}
    (oldPrints : old.Prints options first) (newPrints : new.Prints options second)
    (distinct : old.numbering.Nodup) (shown : id ∈ old.numbering) :
    ∃ (one : old.Excerpt options writing.target.blocks id)
      (other : new.Excerpt options writing.final id),
      one.Revised other name (shadowText writing.leaf) := by
  obtain ⟨owner, stored, apart, chosen, origin⟩ := writing.resolves.shadow found notField structural
  obtain rfl := found_unique writing.stored stored
  have wrote := writing.resolves.wrote writing.field
  obtain ⟨inputs, lookup, filled⟩ := wrote.owner found apart
  rw [oldPrints.numbering] at distinct shown
  let refit := wrote.refit linked found structural named apart lookup filled writing.get?_final
    (contains_of_shadowField chosen).1 (origin.imp And.right And.left)
  have recast := refit.recast_ofArena wrote.scripts outlined again distinct shown
  exact refit.excerpts recast outlined again oldPrints newPrints

end

/-- What was written expresses the value; a literal has it as its text. -/
theorem expresses (writing : Writing .headless before id name value update after) :
    writing.field.Expresses (((⟨after, writing.index, .headless⟩ : ChoiceContext).options?
        writing.leaf.opcode update.field writing.field.value writing.slot.block).getD []) value ∧
      (Catalog.LiteralType.ofOpcode? writing.leaf.opcode ≠ none →
        Catalog.primaryField? writing.leaf.opcode = some update.field →
        writing.field.value = value) := by
  have expressed := expresses_of_registers (writing.interpreted_after writing.field.value)
    writing.registers
  rw [writing.slotField]
  refine ⟨expressed, fun isLiteral primary => ?_⟩
  obtain ⟨type, found⟩ := Option.ne_none_iff_exists'.mp isLiteral
  have opcode : type.opcode = writing.leaf.opcode := by simpa using List.find?_some found
  have same : type.field = writing.slot.field := by
    have field := Catalog.primaryField?_literal type
    rw [opcode] at field
    exact Option.some.inj (field.symm.trans primary)
  have offered : type.opcode = writing.owner.opcode := opcode
  simp only at expressed
  rw [← offered, ← same, options?_literal] at expressed
  rcases expressed with done | ⟨option, member, -⟩
  · exact done
  · cases member

end FieldWrite.Writing

namespace Project

variable {before after : Project} {id name value : String} {update : FieldUpdate}
  {options : ListingOptions} {listing : Listing} {index : Nat} {target : Target} {block : Block}

/-- A listing numbers visible blocks. -/
theorem structural_of_numbered (shows : listing.Shows target.blocks) (shown : id ∈ listing.numbering)
    (found : target.blocks.get? id = some block) : isStructural block = true := by
  obtain ⟨same, links, lookup, visible⟩ := ((shows.mem_iff id).mp shown).shown
  obtain rfl := found_unique found lookup
  by_contra hidden
  rw [visible_of_not_structural (Bool.not_eq_true _ ▸ hidden)] at visible
  cases visible

/-- A listing without choices prints the outline of the editing target. -/
theorem prints_of_listing (required : before.requireEditing = .ok (index, target))
    (listed : before.listing .headless options = .ok listing) (bare : options.withChoices = false) :
    ∃ entries, ofArena target.blocks = .ok entries ∧ listing.Prints options entries := by
  obtain ⟨_, _, entries, same, outlined, rfl⟩ := listing_eq_ok listed
  cases Except.ok.inj (required.symm.trans same)
  refine ⟨entries, outlined, ?_, ids_of_records _ entries⟩
  rw [line_of_bare bare]

/-- A write to an input of a visible block changes the listing in that input alone. The blocks keep
their numbers, the line of the input shows what its shadow now holds, and every other line is the
same; only the inputs of that block may stand in another order. -/
theorem listing_setField (linked : before.WellLinked) (bare : options.withChoices = false)
    (listed : before.listing .headless options = .ok listing)
    (required : before.requireEditing = .ok (index, target)) (shown : id ∈ listing.numbering)
    (found : target.blocks.get? id = some block) (named : name ∈ inputNames block)
    (notField : block.fields.contains name = false)
    (lone : ∀ child held, block.HoldsIn name child → target.blocks.get? child = some held →
      Catalog.kind held.opcode = .shadow → held.Lone)
    (wrote : setField .headless id name value before = .ok update after) :
    ∃ later changed child leaf field,
      after.listing .headless options = .ok later ∧ later.numbering = listing.numbering ∧
      after.requireEditing = .ok (index, changed) ∧
      changed.blocks.HoldsLiteral id name child leaf update.field field ∧
      field.id.getD field.value = update.value ∧
      field.Expresses (((⟨after, index, .headless⟩ : ChoiceContext).options? leaf.opcode update.field
        field.value child).getD []) value ∧
      (Catalog.LiteralType.ofOpcode? leaf.opcode ≠ none → field.value = value) ∧
      ∃ (first : listing.Excerpt options target.blocks id)
        (second : later.Excerpt options changed.blocks id),
        first.Revised second name (valueText leaf.opcode field.value) := by
  obtain ⟨writing⟩ := writing_of_setField wrote
  obtain ⟨rfl, rfl⟩ := Prod.mk.inj (Except.ok.inj (required.symm.trans writing.required))
  obtain ⟨same, again, shows⟩ := listing_of_wellLinked linked required .headless options
  obtain rfl := Except.ok.inj (listed.symm.trans again)
  have structural := structural_of_numbered shows shown found
  obtain ⟨changed, chosen, blocks⟩ := writing.required_after
  have kept := after_order (fun _ writable => transacts_setField writable .headless id name value)
    linked required shows.order
  obtain ⟨afterLinked, _, chosen', order⟩ := (after_of_ok wrote).mp kept
  cases Except.ok.inj (chosen.symm.trans chosen')
  obtain ⟨later, relisted, numbering⟩ := numbering_of_order afterLinked chosen order .headless options
  obtain ⟨first, outlined, prints⟩ := prints_of_listing required listed bare
  obtain ⟨second, outlined', prints'⟩ := prints_of_listing chosen relisted bare
  have literal := writing.holdsLiteral found structural notField lone
  have expressed := writing.expresses
  refine ⟨later, changed, writing.slot.block, writing.leaf, writing.field, relisted, numbering,
    chosen, blocks ▸ literal, writing.registers.reported, expressed.1, fun isLiteral =>
      expressed.2 isLiteral literal.primary, ?_⟩
  rw [← shadowText_lone literal.primary literal.fields]
  rw [blocks] at outlined' ⊢
  exact writing.excerpts found structural notField (linked.get (requireEditing_eq_ok required).2)
    named outlined outlined' prints prints' shows.distinct shown

/-- A block that goes to a place. -/
def gotoBlock (inputs : List Input) : Block where
  opcode := "motion_gotoxy"
  topLevel := true
  inputs := inputs

/-- The sprite of such a block, when a number is written to its second input. -/
def gotoTarget : Target where
  name := "Cat"
  isStage := false
  blocks :=
    { blocks := .ofList
        [("a", gotoBlock [⟨"Y", some "shadow_1", some "shadow_1"⟩]),
          ("shadow_1", (Block.newShadow "a" "math_number" "NUM" "").withField "NUM" (.plain " 7 "))]
      scripts := ["a"]
      counter := 1 }

theorem wellLinked_goto : (oneBlockProject "motion_gotoxy" []).WellLinked := by
  intro target member
  apply Arena.wellLinked_of_sound <;> revert target <;> decide +kernel

/-- Of two inputs that are missing the second one is written, and comes up before the first one. -/
theorem listing_setField_goto :
    ∃ listing later after,
      (oneBlockProject "motion_gotoxy" []).listing .headless
        { withIds := false, withChoices := false } = .ok listing ∧
      listing.lines = ["#1 motion_gotoxy [top]", "  - input X:", "  - input Y:"] ∧
      setField .headless "a" "Y" " 7 " (oneBlockProject "motion_gotoxy" []) =
        .ok ⟨"NUM", " 7 "⟩ after ∧
      after.listing .headless { withIds := false, withChoices := false } = .ok later ∧
      later.lines = ["#1 motion_gotoxy [top]", "  - input Y: 7 (math_number)", "  - input X:"] ∧
      later.numbering = listing.numbering ∧
      ∃ (target changed : Target) (child : String) (leaf : Block) (field : Field)
        (first : listing.Excerpt { withIds := false, withChoices := false } target.blocks "a")
        (second : later.Excerpt { withIds := false, withChoices := false } changed.blocks "a"),
        changed.blocks.HoldsLiteral "a" "Y" child leaf "NUM" field ∧
        first.Revised second "Y" (valueText leaf.opcode field.value) := by
  have listed : (oneBlockProject "motion_gotoxy" []).listing Editor.headless
      { withIds := false, withChoices := false } = .ok _ :=
    listing_of_walkWithin rfl 5 ["#1 motion_gotoxy [top]", "  - input X:", "  - input Y:"]
      [⟨"a", gotoBlock [], {}⟩] (by decide +kernel)
  have wrote : setField .headless "a" "Y" " 7 " (oneBlockProject "motion_gotoxy" []) =
      .ok ⟨"NUM", " 7 "⟩ ((setField .headless "a" "Y" " 7 ").final
        (oneBlockProject "motion_gotoxy" [])) := by
    decide +kernel
  obtain ⟨later, changed, child, leaf, field, relisted, numbering, -, literal, -, -, -, first, second,
    revised⟩ := listing_setField wellLinked_goto rfl listed rfl (by decide) rfl (by decide +kernel)
      rfl (fun _ _ ⟨_, member, _⟩ => absurd member List.not_mem_nil) wrote
  have required : ((setField .headless "a" "Y" " 7 ").final
      (oneBlockProject "motion_gotoxy" [])).requireEditing = .ok (1, gotoTarget) := by
    decide +kernel
  have again : ((setField .headless "a" "Y" " 7 ").final
      (oneBlockProject "motion_gotoxy" [])).listing Editor.headless
      { withIds := false, withChoices := false } = .ok _ :=
    listing_of_walkWithin required 6
      ["#1 motion_gotoxy [top]", "  - input Y: 7 (math_number)", "  - input X:"]
      [⟨"a", gotoBlock [⟨"Y", some "shadow_1", some "shadow_1"⟩], {}⟩] (by decide +kernel)
  obtain rfl := Except.ok.inj (again.symm.trans relisted)
  exact ⟨_, _, _, listed, rfl, wrote, again, rfl, numbering, _, changed, child, leaf, field, first,
    second, literal, revised⟩

end Project

end BlockGraph
