import BlockGraph.Proofs.Visibility

/-!
A new block appends to listings. A walk that ends has met stored blocks only, so it goes the same way
where more blocks are stored, even if a link that it does not follow leads to one of them. A new block
is the last script, with shadows for children, and adds one numbered block at the end. Its field is
bound after that, which changes the new block and its shadows alone.
-/

set_option autoImplicit false

namespace BlockGraph

open Revision

/-- Arenas of which the second one has a new script with shadows in its slots, all under new ids. What
was stored before is kept. -/
structure Arena.Appends (before after : Arena) (id : String) (block : Block) : Prop where
  kept : ∀ other old, before.get? other = some old → after.get? other = some old
  scripts : after.scripts = before.scripts ++ [id]
  fresh : before.get? id = none
  found : after.get? id = some block
  structural : Outline.isStructural block = true
  below : block.next = none
  branches : ∀ branch, block.branch branch = none
  children : ∀ child ∈ block.childIds, before.get? child = none ∧ after.IsShadow child

namespace Outline

variable {arena before after : Arena} {agenda : List Task} {visited : List String} {task : Task}
  {next : Step} {entries : List Entry} {id : String} {block : Block}

/-- A step depends on blocks that are stored. -/
theorem Taken.mono (kept : ∀ other old, before.get? other = some old → after.get? other = some old)
    (taken : Taken before visited task next) : Taken after visited task next := by
  cases taken with
  | script found structural => exact .script (kept _ _ found) structural
  | hiddenScript found hidden => exact .hiddenScript (kept _ _ found) hidden
  | sequence found structural isNew => exact .sequence (kept _ _ found) structural isNew
  | hiddenSequence found hidden => exact .hiddenSequence (kept _ _ found) hidden
  | emptyInput absent => exact .emptyInput absent
  | nested plugged found kind => exact .nested plugged (kept _ _ found) kind
  | literal plugged found kind => exact .literal plugged (kept _ _ found) kind
  | outOfScope plugged found kind => exact .outOfScope plugged (kept _ _ found) kind
  | branch => exact .branch

theorem shownIds_of_taken (taken : Taken arena visited task next) :
    shownIds next.entries = next.shown.toList := by
  cases taken with
  | script found structural =>
    simp only [shownIds]
    split <;> rfl
  | sequence found structural isNew => simp [shownIds, Entry.shown?, shown?_fieldEntries]
  | hiddenScript | hiddenSequence | emptyInput | nested | literal | outOfScope | branch => rfl

/-- Where all that is stored is kept, a walk that ended goes the same way, and goes on with the tasks
that are left. -/
theorem walk_kept (kept : ∀ other old, before.get? other = some old → after.get? other = some old)
    (walked : walk before agenda visited = .ok entries) (rest : List Task) :
    walk after (agenda ++ rest) visited =
      (walk after rest ((shownIds entries).reverse ++ visited)).map (entries ++ ·) := by
  refine walk_induction (motive := fun agenda visited entries =>
    walk after (agenda ++ rest) visited =
      (walk after rest ((shownIds entries).reverse ++ visited)).map (entries ++ ·)) ?_ ?_ walked
  · intro visited
    cases ended : walk after rest visited <;> simp [shownIds, ended, Except.map]
  · intro visited task others next later taken ih
    have same : (shownIds (next.entries ++ later)).reverse ++ visited =
        (shownIds later).reverse ++ (next.shown.toList ++ visited) := by
      rw [shownIds_append, shownIds_of_taken taken, List.reverse_append, List.append_assoc]
      -- A step shows one block at most, so the order of what it shows does not matter.
      cases next.shown <;> rfl
    rw [List.cons_append, walk_of_taken (taken.mono kept), ← List.append_assoc, ih, same]
    cases walk after rest ((shownIds later).reverse ++ (next.shown.toList ++ visited)) <;>
      simp [Except.map]

/-- Tasks that leave nothing to do are walked through. -/
theorem walk_leaves (each : ∀ task ∈ agenda, ∃ entries, Taken arena visited task ⟨entries, [], none⟩) :
    ∃ entries, walk arena agenda visited = .ok entries := by
  induction agenda with
  | nil => exact ⟨[], by rw [walk]⟩
  | cons task rest ih =>
    obtain ⟨first, taken⟩ := each task List.mem_cons_self
    obtain ⟨later, walked⟩ := ih fun other member => each other (List.mem_cons_of_mem _ member)
    exact ⟨first ++ later, by simp [walk_of_taken taken, walked, Except.map]⟩

/-- Slots that hold nothing but shadows show no block. -/
theorem ids_of_fills (leaves : ∀ name child, block.plugged? name = some child → arena.IsShadow child)
    (empty : ∀ branch, block.branch branch = none) {names : List String} {branches : List Branch}
    {slots : Slots} (fills : Fills arena block names branches slots) : slots.ids = [] := by
  induction names generalizing slots with
  | nil =>
    induction branches generalizing slots with
    | nil =>
      cases fills
      rfl
    | cons branch branches ih =>
      cases fills with
      | branch unfolds others =>
        rw [empty branch] at unfolds
        cases unfolds
        rw [Slots.ids, Sequence.ids, ih others, List.append_nil]
  | cons name names ih =>
    cases fills with
    | @input _ _ _ _ filling _ holds others =>
      have filled : filling.ids = [] := by
        cases plugged : block.plugged? name with
        | none =>
          rw [plugged] at holds
          cases holds
          rfl
        | some child =>
          obtain ⟨shadow, stored, kind⟩ := leaves name child plugged
          rw [plugged] at holds
          cases holds with
          | outOfScope => rfl
          | literal => rfl
          | nested found structural =>
            rw [found_unique found stored, kind] at structural
            cases structural
      rw [Slots.ids, filled, ih others, List.append_nil]

/-- What sets a script off from the entries before it. -/
def gapAfter (entries : List Entry) : List Entry :=
  if entries = [] then [] else [.separator]

/-- An outline is empty, or starts with the header of its first block. -/
theorem ofArena_cases (outlined : ofArena arena = .ok entries) :
    entries = [] ∨ ∃ id block rest, entries = .header 1 id block 0 true :: rest := by
  obtain ⟨forest, unfolds, rfl⟩ := forest_of_ofArena outlined
  cases forest with
  | nil => exact .inl rfl
  | cons script forest =>
    right
    have unfolded := (unfolds _).mpr rfl
    generalize arena.scripts = roots at unfolded
    induction roots with
    | nil => cases unfolded
    | cons root roots ih =>
      cases unfolded with
      | hidden _ _ others => exact ih others
      | shown found structural sequence _ =>
        obtain ⟨_, _, rfl, -⟩ := sequence.of_structural found structural
        rw [forestEntries, scriptDrawings, intercalate_cons, Sequence.entries]
        exact ⟨_, _, _, rfl⟩

theorem stored_of_shownIds (outlined : ofArena arena = .ok entries) (shown : id ∈ shownIds entries) :
    ∃ block, arena.get? id = some block := by
  obtain ⟨⟨_, block⟩, member, rfl⟩ := List.mem_map.mp shown
  obtain ⟨entry, listed, isShown⟩ := List.mem_filterMap.mp member
  have stored := stored_of_ofArena outlined entry listed
  cases entry with
  | header =>
    cases isShown
    exact ⟨block, stored.1⟩
  | separator | field | input | literal | branch => cases isShown

end Outline

namespace Arena.Appends

open Outline

variable {before after : Arena} {id : String} {block : Block} {visited : List String}
  {entries : List Entry}

theorem leaves (appends : before.Appends after id block) (name child : String)
    (plugged : block.plugged? name = some child) : after.IsShadow child :=
  (appends.children child (Block.mem_childIds_of_plugged? plugged)).2

/-- A walk through a new block comes to an end. -/
theorem exists_walk (appends : before.Appends after id block) (isNew : id ∉ visited) :
    ∃ entries, walk after [.script id] visited = .ok entries := by
  have inner : ∃ entries, walk after (innerTasks id block 0) (id :: visited) = .ok entries := by
    apply walk_leaves
    intro task member
    simp only [innerTasks, appends.below, Option.toList_none, List.map_nil, List.append_nil,
      List.mem_append, List.mem_map] at member
    rcases member with ⟨name, -, rfl⟩ | ⟨branch, -, rfl⟩
    · cases plugged : block.plugged? name with
      | none => exact ⟨_, .emptyInput plugged⟩
      | some child =>
        obtain ⟨shadow, stored, kind⟩ := appends.leaves name child plugged
        exact ⟨_, .literal plugged stored kind⟩
    · rw [appends.branches branch]
      exact ⟨_, .branch⟩
  obtain ⟨later, walked⟩ := inner
  rw [walk_of_taken (.script appends.found appends.structural), Option.toList_none, List.nil_append,
    List.append_nil, walk_of_taken (.sequence appends.found appends.structural isNew),
    List.append_nil, Option.toList_some, List.singleton_append, walked]
  exact ⟨_, rfl⟩

/-- A new block is drawn as one script with one block. -/
theorem walk_eq (appends : before.Appends after id block) (isNew : id ∉ visited) :
    ∃ slots, Fills after block (inputNames block) (shownBranches block) slots ∧ slots.ids = [] ∧
      walk after [.script id] visited =
        .ok ((if visited.length = 0 then [] else [.separator]) ++
          (Sequence.block id block slots .done).entries visited.length 0 true) := by
  obtain ⟨entries, walked⟩ := appends.exists_walk isNew
  rw [walked]
  cases draws_of_walk walked with
  | hidden found hidden _ =>
    rw [found_unique found appends.found, appends.structural] at hidden
    cases hidden
  | script _ _ unfolds others =>
    cases others
    obtain ⟨slots, _, rfl, fills, below⟩ := unfolds.of_structural appends.found appends.structural
    rw [appends.below] at below
    cases below
    exact ⟨slots, fills, ids_of_fills appends.leaves appends.branches fills, by rw [List.append_nil]⟩

/-- The outline goes on with the new block, which is set off unless it is the first one shown. -/
theorem ofArena_eq (appends : before.Appends after id block)
    (outlined : ofArena before = .ok entries) :
    ∃ slots, Fills after block (inputNames block) (shownBranches block) slots ∧ slots.ids = [] ∧
      ofArena after = .ok (entries ++ (gapAfter entries ++
        (Sequence.block id block slots .done).entries (shownIds entries).length 0 true)) := by
  have isNew : id ∉ (shownIds entries).reverse := by
    intro shown
    obtain ⟨old, stored⟩ := stored_of_shownIds outlined (List.mem_reverse.mp shown)
    cases appends.fresh.symm.trans stored
  obtain ⟨slots, fills, none, walked⟩ := appends.walk_eq isNew
  have first : (shownIds entries).length = 0 ↔ entries = [] := by
    rcases ofArena_cases outlined with rfl | ⟨_, _, _, rfl⟩
    · exact iff_of_true rfl rfl
    · exact iff_of_false (by simp [shownIds, Entry.shown?]) (by simp)
  refine ⟨slots, fills, none, ?_⟩
  rw [ofArena, appends.scripts, List.map_append, List.map_singleton,
    walk_kept appends.kept outlined, List.append_nil, walked, List.length_reverse]
  simp only [first, gapAfter]
  rfl

end Arena.Appends

/-- A shadow that is plugged in is the only new child. -/
theorem Block.mem_childIds_of_filled {block : Block} {name shadow child : String} {inputs : List Input}
    (filled : Input.Filled name shadow block.inputs inputs)
    (member : child ∈ ({ block with inputs := inputs } : Block).childIds) :
    child ∈ block.childIds ∨ child = shadow := by
  obtain ⟨left, right, old, before, rfl, -⟩ := filled
  simp only [Block.childIds, before, List.flatMap_append, List.flatMap_cons, List.mem_append] at member ⊢
  have plugged : child ∈ (⟨name, some shadow, some shadow⟩ : Input).childIds → child = shadow := by
    simp [Input.childIds]
  tauto

namespace Arena.Appends

open NewBlock FieldWrite

variable {before after middle blocks : Arena} {id name : String} {block : Block} {slot : Slot}

/-- A block that is built from its template is a new script. -/
theorem of_placed {spec : Catalog.BlockSpec} {shadows : List (String × Block)} {opcode : String}
    (placed : Placed before spec id block shadows middle after) (tidy : before.Tidy)
    (known : Catalog.spec? opcode = some spec) : before.Appends after id block where
  kept _ _ := placed.get?_old
  scripts := placed.scripts tidy
  fresh := placed.fresh
  found := placed.get?_id
  structural := by
    rw [Outline.isStructural, placed.opcode, (Catalog.spec?_eq_some known).2, Catalog.kind, known]
    rfl
  below := placed.below
  branches branch := by
    rw [Block.branch, placed.branches]
    cases branch <;> rfl
  children child member := by
    rw [placed.childIds] at member
    exact ⟨placed.fresh_of_shadow member, placed.isShadow (Catalog.spec?_eq_some known).1 member⟩

/-- A write to a new block goes to that block or to a shadow that is new as well. -/
theorem written (appends : before.Appends after id block)
    (resolves : Resolves after id name slot blocks) :
    before.get? slot.block = none ∧
      (slot.block = id ∧ blocks = after ∨ blocks.IsShadow slot.block) := by
  by_cases isField : block.fields.contains name = true
  · cases resolves with
    | own => exact ⟨appends.fresh, .inl ⟨rfl, rfl⟩⟩
    | plugged found notField | filled found notField =>
      rw [Outline.found_unique found appends.found, isField] at notField
      cases notField
  · obtain ⟨leaf, stored, -, chosen, origin⟩ :=
      resolves.shadow appends.found (by simpa using isField) appends.structural
    refine ⟨?_, .inr ⟨leaf, stored, (contains_of_shadowField chosen).1⟩⟩
    rcases origin with ⟨-, holds⟩ | ⟨missing, -⟩
    · exact (appends.children _ holds.mem_childIds).1
    · cases stood : before.get? slot.block with
      | none => rfl
      | some old => cases missing.symm.trans (appends.kept _ _ stood)

/-- A write to a new block changes nothing that was stored before. -/
theorem write (appends : before.Appends after id block)
    (resolves : Resolves after id name slot blocks) (field : Field) :
    ∃ changed, before.Appends (blocks.modifyBlock slot.block (·.withField slot.field field)) id changed ∧
      changed.opcode = block.opcode := by
  have wrote := resolves.wrote field
  obtain ⟨isNew, place⟩ := appends.written resolves
  obtain ⟨inputs, found, filled⟩ := wrote.kept id block appends.found
  -- A write to the block itself goes to one of its fields; else a shadow is written to, which may
  -- have been plugged in for that.
  have refilled : inputs = block.inputs ∨ Input.Filled name slot.block block.inputs inputs ∧
      (blocks.modifyBlock slot.block (·.withField slot.field field)).IsShadow slot.block := by
    rcases place with ⟨isOwner, rfl⟩ | ⟨leaf, stored, kind⟩
    · left
      rw [isOwner, get?_modifyBlock, if_pos rfl, appends.found] at found
      exact congrArg Block.inputs (Option.some.inj found).symm
    · refine filled.imp_right fun changed => ⟨changed.2, leaf.withField slot.field field, ?_, kind⟩
      rw [get?_modifyBlock, if_pos rfl, stored, Option.map_some]
  have shadows {child : String} (isShadow : after.IsShadow child) :
      (blocks.modifyBlock slot.block (·.withField slot.field field)).IsShadow child := by
    obtain ⟨shadow, stored, kind⟩ := isShadow
    obtain ⟨_, lookup, -⟩ := wrote.kept child shadow stored
    exact ⟨_, lookup, kind⟩
  refine ⟨_, ⟨?_, wrote.scripts.trans appends.scripts, appends.fresh, found, appends.structural,
    appends.below, appends.branches, ?_⟩, rfl⟩
  · intro other old stood
    obtain ⟨same, lookup, changed⟩ := wrote.kept other old (appends.kept other old stood)
    have notWritten : other ≠ slot.block := by
      rintro rfl
      cases isNew.symm.trans stood
    have notNew : other ≠ id := by
      rintro rfl
      cases appends.fresh.symm.trans stood
    obtain rfl := changed.resolve_right fun isOwner => notNew isOwner.1
    rw [lookup, if_neg notWritten]
  · intro child member
    rcases refilled with rfl | ⟨filled, isShadow⟩
    · obtain ⟨free, isShadow⟩ := appends.children child member
      exact ⟨free, shadows isShadow⟩
    · rcases Block.mem_childIds_of_filled filled member with old | rfl
      · obtain ⟨free, isShadow⟩ := appends.children child old
        exact ⟨free, shadows isShadow⟩
      · exact ⟨isNew, isShadow⟩

end Arena.Appends

namespace Outline

/-- A block without others in its slots adds one record. -/
theorem shown?_alone {id : String} {block : Block} {slots : Slots} (none : slots.ids = [])
    (count : Nat) :
    ((Sequence.block id block slots .done).entries count 0 true).filterMap Entry.shown? =
      [(id, block)] := by
  have inner : (slots.entries (count + 1) 0).filterMap Entry.shown? = [] := by
    have shown := slots.shownIds_entries (count + 1) 0
    rwa [none, shownIds, List.map_eq_nil_iff] at shown
  simp [Sequence.entries, Entry.shown?, shown?_fieldEntries, inner]

/-- The line of the first block is not empty. -/
theorem bareLine_header_ne (options : ListingOptions) (index : Nat) (id : String) (block : Block) :
    bareLine options (.header index id block 0 true) ≠ "" := by
  simp [bareLine, plainLine, String.append_eq_empty_iff]

end Outline

open Outline

/-- A listing that goes on with one more record, and behind an empty line with more lines. -/
structure Listing.Continues (listing later : Listing) (record : Record) (own : List String) : Prop where
  records : later.records = listing.records ++ [record]
  targetName : later.targetName = listing.targetName
  lines : later.lines = listing.lines ++ ((if listing.lines = [] then [] else [""]) ++ own)
  pseudocode : later.pseudocode =
    (if listing.pseudocode = "" then "" else listing.pseudocode ++ "\n\n") ++ "\n".intercalate own

/-- The text of lines that go on behind an empty line. -/
theorem Listing.intercalate_continued {lines own : List String}
    (filled : ∀ first ∈ lines.head?, first ≠ "") (nonempty : own ≠ []) :
    "\n".intercalate (lines ++ ((if lines = [] then [] else [""]) ++ own)) =
      (if "\n".intercalate lines = "" then "" else "\n".intercalate lines ++ "\n\n") ++
        "\n".intercalate own := by
  cases lines with
  | nil => simp
  | cons first rest =>
    have visible : first ≠ "" := filled first rfl
    have text : "\n".intercalate (first :: rest) ≠ "" := by
      cases rest with
      | nil => rwa [String.intercalate_singleton]
      | cons second others => simp [String.intercalate_cons_cons, String.append_eq_empty_iff]
    have gap : "\n".intercalate ("" :: own) = "\n" ++ "\n".intercalate own := by
      rw [String.intercalate_cons_of_ne_nil nonempty, String.empty_append]
    rw [if_neg (List.cons_ne_nil _ _), if_neg text, List.singleton_append,
      String.intercalate_append_of_ne_nil (List.cons_ne_nil _ _) (List.cons_ne_nil _ _), gap]
    simp only [String.append_assoc]
    rfl

/-- Entries that go on behind a separator make a listing that goes on. -/
theorem Listing.continues_of_entries {options : ListingOptions} {viewer : Editor} {name : String}
    {entries own : List Entry} {record : Record}
    (starts : entries = [] ∨ ∃ id block rest, entries = .header 1 id block 0 true :: rest)
    (recorded : own.filterMap (record? viewer) = [record]) :
    Listing.Continues ⟨entries.map (bareLine options), entries.filterMap (record? viewer), name⟩
      ⟨(entries ++ (gapAfter entries ++ own)).map (bareLine options),
        (entries ++ (gapAfter entries ++ own)).filterMap (record? viewer), name⟩
      record (own.map (bareLine options)) := by
  have lines : (entries ++ (gapAfter entries ++ own)).map (bareLine options) =
      entries.map (bareLine options) ++
        ((if entries.map (bareLine options) = [] then [] else [""]) ++ own.map (bareLine options)) := by
    simp only [List.map_append, List.map_eq_nil_iff, gapAfter]
    split <;> rfl
  have nonempty : own.map (bareLine options) ≠ [] := by
    rw [ne_eq, List.map_eq_nil_iff]
    rintro rfl
    cases recorded
  have filled : ∀ first ∈ (entries.map (bareLine options)).head?, first ≠ "" := by
    rcases starts with rfl | ⟨id, block, rest, rfl⟩
    · simp
    · rintro _ ⟨⟩
      exact bareLine_header_ne options 1 id block
  refine ⟨?_, rfl, lines, (congrArg _ lines).trans (intercalate_continued filled nonempty)⟩
  simp only [List.filterMap_append, recorded, gapAfter]
  split <;> rfl

namespace Project

variable {project next : Project} {index : Nat} {target changed : Target} {viewer : Editor}
  {options : ListingOptions} {listing : Listing} {id : String} {block : Block}

/-- A listing without choices goes on with a new block. -/
theorem listing_of_appends (required : project.requireEditing = .ok (index, target))
    (again : next.requireEditing = .ok (index, changed)) (same : changed.name = target.name)
    (appends : target.blocks.Appends changed.blocks id block) (bare : options.withChoices = false)
    (listed : project.listing viewer options = .ok listing) :
    ∃ slots later, Fills changed.blocks block (inputNames block) (shownBranches block) slots ∧
      slots.ids = [] ∧ next.listing viewer options = .ok later ∧
      listing.Continues later ⟨id, block, geometry viewer id block⟩
        (((Sequence.block id block slots .done).entries listing.records.length 0 true).map
          (bareLine options)) := by
  obtain ⟨_, _, entries, chosen, outlined, rfl⟩ := listing_eq_ok listed
  cases Except.ok.inj (required.symm.trans chosen)
  obtain ⟨slots, fills, none, extended⟩ := appends.ofArena_eq outlined
  have count : (entries.filterMap (record? viewer)).length = (shownIds entries).length := by
    rw [shownIds, ← ids_of_records viewer, List.length_map]
  have recorded : ((Sequence.block id block slots .done).entries (shownIds entries).length 0
      true).filterMap (record? viewer) = [⟨id, block, geometry viewer id block⟩] := by
    rw [record?_eq, ← List.map_filterMap, shown?_alone none]
    rfl
  refine ⟨slots, _, fills, none, listing_of_ofArena again extended viewer options, ?_⟩
  rw [line_of_bare bare, line_of_bare bare, count, same]
  exact Listing.continues_of_entries (ofArena_cases outlined) recorded

/-- Fields of a new block are bound in the new block and its shadows. -/
theorem appends_bindings {before : Arena} (editor : Editor) (bindings : List NewBlock.Binding)
    (required : project.requireEditing = .ok (index, target))
    (appends : before.Appends target.blocks id block) :
    After (bindings.forM fun (field, name) => do
        let _ ← setField editor id field name) project
      (fun _ next => ∃ changed bound, next.requireEditing = .ok (index, changed) ∧
        before.Appends changed.blocks id bound ∧ bound.opcode = block.opcode) fun _ _ => True := by
  induction bindings generalizing project target block with
  | nil => exact ⟨target, block, required, appends, rfl⟩
  | cons binding rest ih =>
    obtain ⟨field, name⟩ := binding
    simp only [List.forM, after_bind, after_pure]
    cases wrote : setField editor id field name project with
    | error fault next =>
      rw [after_of_error wrote]
      trivial
    | ok update next =>
      rw [after_of_ok wrote]
      obtain ⟨writing⟩ := writing_of_setField wrote
      obtain ⟨rfl, rfl⟩ := Prod.mk.inj (Except.ok.inj (required.symm.trans writing.required))
      obtain ⟨changed, again, blocks⟩ := writing.required_after
      obtain ⟨bound, bounded, opcode⟩ := appends.write writing.resolves writing.field
      rw [← FieldWrite.Writing.final, ← blocks] at bounded
      refine (ih again bounded).mono ?_ fun _ _ _ => trivial
      rintro _ last ⟨changed, final, chosen, appended, same⟩
      exact ⟨changed, final, chosen, appended, same.trans opcode⟩

/-- A block that is added is a new script of the editing target. -/
theorem appends_addBlock (tidy : project.Every fun target => target.blocks.Tidy) (editor : Editor)
    (opcode : String) (creation : Json) :
    After (addBlock editor opcode creation) project
      (fun id next => ∃ index target changed block, project.requireEditing = .ok (index, target) ∧
        next.requireEditing = .ok (index, changed) ∧ target.blocks.Appends changed.blocks id block ∧
        block.opcode = opcode) fun _ _ => True := by
  rw [addBlock, after_bind, after_get, after_bind, after_check]
  refine ⟨?_, fun _ _ => trivial⟩
  rintro ⟨index, target⟩ required
  have found := (requireEditing_eq_ok required).2
  cases known : Catalog.spec? opcode with
  | none => trivial
  | some spec =>
    simp only
    rw [after_bind, after_check]
    refine ⟨fun requested _ => ?_, fun _ _ => trivial⟩
    rw [after_bind, after_onBlocks_of_get? found]
    refine (NewBlock.after_place project target spec target.blocks).mono ?_ fun _ _ => False.elim
    rintro id blocks ⟨block, shadows, middle, placed⟩
    have appends := Arena.Appends.of_placed placed (tidy.get found) known
    have isOpcode : block.opcode = opcode := placed.opcode.trans (Catalog.spec?_eq_some known).2
    rw [after_bind, after_tryCatch]
    refine (appends_bindings editor _ (requireEditing_putBlocks required blocks) appends).mono ?_ ?_
    · rintro _ next ⟨changed, bound, again, bounded, same⟩
      exact ⟨index, target, changed, bound, required, again, bounded, same.trans isOpcode⟩
    · intro fault next _
      rw [after_bind]
      exact (after_true _ _).mono (fun _ _ _ => trivial) fun _ _ _ => trivial

end Project

/-- Where a project from a document has been edited by requests and its editing target can be listed,
a block that is added appends to the listing, and does so whatever the links of the blocks were like.
The blocks that were listed keep their numbers and records, the new one is the last, and its lines
stand at the end, behind an empty line if there were others. -/
theorem Session.listing_addBlock {value : Json} {session : Session} {reached next : Project}
    (read : Document.readProject value = .ok session.project) (requests : List Request)
    (ran : (session.executeAll requests).2.project = reached) {viewer editor : Editor}
    {options : ListingOptions} (bare : options.withChoices = false) {listing : Listing}
    (listed : reached.listing viewer options = .ok listing) {opcode : String} {creation : Json}
    {id : String} (added : Project.addBlock editor opcode creation reached = .ok id next) :
    ∃ index target block slots later,
      next.requireEditing = .ok (index, target) ∧ target.blocks.get? id = some block ∧
      block.opcode = opcode ∧
      Fills target.blocks block (inputNames block) (shownBranches block) slots ∧ slots.ids = [] ∧
      next.listing viewer options = .ok later ∧
      listing.Continues later ⟨id, block, geometry viewer id block⟩
        (((Sequence.block id block slots .done).entries listing.records.length 0 true).map
          (bareLine options)) := by
  have storable : reached.Storable := by
    rw [← ran]
    exact Session.executeAll_storable (Document.storable_readProject read) requests
  obtain ⟨index, target, changed, block, required, again, appends, isOpcode⟩ := (after_of_ok added).mp
    (Project.appends_addBlock (fun target member => (storable.targets target member).tidy) editor
      opcode creation)
  obtain ⟨_, inside, -⟩ :=
    (after_of_ok added).mp (Project.within_addBlock editor reached opcode creation)
  have same := (inside.grown.targets index target changed (Project.requireEditing_eq_ok required).2
    (Project.requireEditing_eq_ok again).2).name
  obtain ⟨slots, later, fills, none, relisted, continues⟩ :=
    Project.listing_of_appends required again same appends bare listed
  exact ⟨index, changed, block, slots, later, again, appends.found, isOpcode, fills, none, relisted,
    continues⟩

def branchListing : Listing where
  lines := ["#1 control_if [top]", "  - input CONDITION:", "  - SUBSTACK:", "    #2 looks_say",
    "      - input MESSAGE: \"Hi\" (text)"]
  records :=
    [⟨"a", { opcode := "control_if", branches := { first := some "b" }, topLevel := true }, {}⟩,
      ⟨"b", {
        opcode := "looks_say"
        parent := some "a"
        inputs := [⟨"MESSAGE", some "prim_1", some "prim_1"⟩] }, {}⟩]
  targetName := "Cat"

/-- A second script below one with two blocks. -/
theorem Session.listing_addBlock_branch :
    Document.readProject branchDocument = .ok branchSession.project ∧
      branchSession.project.listing .headless { withIds := false, withChoices := false } =
        .ok branchListing ∧
      ∃ next later own, Project.addBlock .headless "motion_movesteps" .null branchSession.project =
          .ok "block_2" next ∧
        next.listing .headless { withIds := false, withChoices := false } = .ok later ∧
        later.records.map Record.id = ["a", "b", "block_2"] ∧
        later.pseudocode = branchListing.pseudocode ++ "\n\n" ++ "\n".intercalate own := by
  have read : Document.readProject branchDocument = .ok branchSession.project := by decide +kernel
  have printed : branchSession.project.listing .headless { withIds := false, withChoices := false } =
      .ok _ :=
    Project.listing_of_walkWithin rfl 8 branchListing.lines branchListing.records (by decide +kernel)
  have listed : branchSession.project.listing .headless { withIds := false, withChoices := false } =
      .ok branchListing := printed
  have added : Project.addBlock .headless "motion_movesteps" .null branchSession.project =
      .ok "block_2" ((Project.addBlock .headless "motion_movesteps" .null).final
        branchSession.project) := by
    decide +kernel
  obtain ⟨_, _, block, _, later, -, -, -, -, -, relisted, continues⟩ :=
    Session.listing_addBlock read [] rfl rfl listed added
  have text := continues.pseudocode
  rw [if_neg (by decide +kernel)] at text
  refine ⟨read, listed, _, later, _, added, relisted, ?_, text⟩
  rw [continues.records]
  rfl

end BlockGraph
