import BlockGraph.Proofs.WellLinked.Sessions

/-!
The numbering that a session remembers is the one of its blocks. A preorder does not change when
hidden blocks come up between the others, and writing a field does no more than that: it plugs in a
shadow at most. All other requests that change blocks forget the numbering, so the numbers in a request
always stand for the blocks that a listing would number with them.
-/

set_option autoImplicit false

namespace BlockGraph

namespace Search

variable {arena next : Arena} {links : Block → Option (List String)}
  {agenda wider order other rest : List String} {id : String}

/-- A stored block that a search passes over. -/
def Hidden (arena : Arena) (links : Block → Option (List String)) (id : String) : Prop :=
  ∃ block, arena.get? id = some block ∧ links block = none

/-- Blocks that are hidden come up between the others. -/
inductive Padded (hidden : String → Prop) : List String → List String → Prop
  | nil : Padded hidden [] []
  | keep {id : String} {agenda wider : List String} :
      Padded hidden agenda wider → Padded hidden (id :: agenda) (id :: wider)
  | pad {id : String} {agenda wider : List String} :
      hidden id → Padded hidden agenda wider → Padded hidden agenda (id :: wider)

namespace Padded

variable {hidden : String → Prop}

theorem refl (agenda : List String) : Padded hidden agenda agenda := by
  induction agenda with
  | nil => exact .nil
  | cons id rest ih => exact .keep ih

theorem rel_refl (links : Option (List String)) : Option.Rel (Padded hidden) links links := by
  cases links with
  | none => exact .none
  | some below => exact .some (refl below)

theorem insert (isHidden : hidden id) (left right : List String) :
    Padded hidden (left ++ right) (left ++ id :: right) := by
  induction left with
  | nil => exact .pad isHidden (refl right)
  | cons head rest ih => exact .keep ih

end Padded

/-- A preorder passes over the hidden blocks between the others. -/
theorem Preorder.of_padded
    (carries : ∀ id block, arena.get? id = some block → ∃ changed, next.get? id = some changed ∧
      Option.Rel (Padded (Hidden next links)) (links block) (links changed))
    (preorder : Preorder arena links agenda order)
    (padded : Padded (Hidden next links) agenda wider) : Preorder next links wider order := by
  induction preorder generalizing wider with
  | done =>
    generalize whole : ([] : List String) = agenda at padded
    induction padded with
    | nil => exact .done
    | keep => cases whole
    | pad isHidden _ ih =>
      obtain ⟨block, found, hidden⟩ := isHidden
      exact .hidden found hidden (ih whole)
  | @hidden id block rest order found hidden _ later =>
    generalize whole : id :: rest = agenda at padded
    induction padded with
    | nil => cases whole
    | keep padded =>
      cases whole
      obtain ⟨changed, lookup, related⟩ := carries id block found
      rw [hidden] at related
      cases none : links changed with
      | none => exact .hidden lookup none (later padded)
      | some below =>
        rw [none] at related
        cases related
    | pad isHidden _ ih =>
      obtain ⟨pad, lookup, none⟩ := isHidden
      exact .hidden lookup none (ih whole)
  | @shown id block below rest inner order found visible _ _ inside later =>
    generalize whole : id :: rest = agenda at padded
    induction padded with
    | nil => cases whole
    | keep padded =>
      cases whole
      obtain ⟨changed, lookup, related⟩ := carries id block found
      rw [visible] at related
      cases some : links changed with
      | none =>
        rw [some] at related
        cases related
      | some wide =>
        rw [some] at related
        cases related with
        | some wider => exact .shown lookup some (inside wider) (later padded)
    | pad isHidden _ ih =>
      obtain ⟨pad, lookup, none⟩ := isHidden
      exact .hidden lookup none (ih whole)

/-- Blocks that show the same links have the same preorders. -/
theorem Preorder.of_links
    (carries : ∀ id block, arena.get? id = some block → ∃ changed, next.get? id = some changed ∧
      links changed = links block)
    (preorder : Preorder arena links agenda order) : Preorder next links agenda order := by
  refine preorder.of_padded (fun id block found => ?_) (.refl agenda)
  obtain ⟨changed, lookup, same⟩ := carries id block found
  rw [← same]
  exact ⟨changed, lookup, Padded.rel_refl (links changed)⟩

theorem Preorder.unique (first : Preorder arena links agenda order)
    (second : Preorder arena links agenda other) : order = other := by
  induction first generalizing other with
  | done =>
    cases second
    rfl
  | hidden found hidden _ ih =>
    cases second with
    | hidden _ _ tail => exact ih tail
    | shown found' visible =>
      obtain rfl := Option.some.inj (found.symm.trans found')
      rw [hidden] at visible
      cases visible
  | shown found visible _ _ inside later =>
    cases second with
    | hidden found' hidden =>
      obtain rfl := Option.some.inj (found.symm.trans found')
      rw [hidden] at visible
      cases visible
    | shown found' visible' inner tail =>
      obtain rfl := Option.some.inj (found.symm.trans found')
      obtain rfl := Option.some.inj (visible.symm.trans visible')
      rw [inside inner, later tail]

end Search

open Search

namespace Outline

variable {arena next : Arena} {block : Block} {name shadow : String} {ids : List String}

/-- An input that held no block refers to one more when a shadow is plugged in. -/
theorem references_plug (shadow : String)
    (empty : ((block.input? name).getD (Input.empty name)).block = none) :
    ∃ left right, references block = left ++ right ∧
      references (block.withInput name
        ({ · with block := some shadow, shadow := some shadow })) = left ++ shadow :: right := by
  let plug : Input → Input := ({ · with block := some shadow, shadow := some shadow })
  have insertion (before after : List String)
      (same : block.inputs.filterMap Input.block = before ++ after) {inputs : List Input}
      (changed : inputs.filterMap Input.block = before ++ shadow :: after) :
      ∃ left right, references block = left ++ right ∧
        references { block with inputs := inputs } = left ++ shadow :: right := by
    refine ⟨before, after ++ Branch.all.filterMap block.branch ++ block.next.toList, ?_, ?_⟩
    · simp only [references, same, List.append_assoc]
    · simp only [references, changed, List.append_assoc, List.cons_append]
      rfl
  rcases block.withInput_eq name plug with ⟨slot, found, same⟩ | ⟨missing, same⟩
  · rw [same]
    rw [found, Option.getD_some] at empty
    rcases Input.modifyFirst_cases (fun input => input.name = name) plug block.inputs with
      ⟨before, input, after, split, -, first, changed⟩ | ⟨none, -⟩
    · obtain rfl := Option.some.inj (found.symm.trans first)
      apply insertion (before.filterMap Input.block) (after.filterMap Input.block)
      · rw [split, List.filterMap_append, List.filterMap_cons, empty]
      · rw [changed, List.filterMap_append, List.filterMap_cons]
    · have named := List.find?_some found
      rw [none slot (List.mem_of_find?_eq_some found)] at named
      cases named
  · rw [same]
    apply insertion (block.inputs.filterMap Input.block) []
    · rw [List.append_nil]
    · rw [List.filterMap_append]
      rfl

/-- What is seen of a block depends on its type alone. -/
theorem visible_congr {changed : Block} (opcode : changed.opcode = block.opcode) :
    visible changed = (visible block).map fun _ => references changed := by
  have same : isStructural changed = isStructural block := by rw [isStructural, isStructural, opcode]
  rw [visible, visible, same]
  split
  · rfl
  · rfl

theorem hidden_of_shadow {leaf : Block} (found : arena.get? shadow = some leaf)
    (kind : Catalog.kind leaf.opcode = .shadow) : Hidden arena visible shadow :=
  ⟨leaf, found, visible_of_not_structural (isStructural_of_kind kind (by decide))⟩

theorem order_of_uncounted (order : Preorder arena visible arena.scripts ids)
    (same : next.uncounted = arena.uncounted) : Preorder next visible next.scripts ids := by
  rw [Arena.scripts_of_uncounted same]
  apply order.of_links
  intro id block found
  exact ⟨block, (Arena.get?_of_uncounted same id).trans found, rfl⟩

/-- The numbers of blocks stay when a field is written. -/
theorem writable_numbering (ids : List String) :
    Arena.Writable fun arena => Preorder arena visible arena.scripts ids where
  uncounted := order_of_uncounted
  readied {arena next} linked order readied := by
    cases readied with
    | kept same => exact order_of_uncounted order same
    | @plugged owner name shadow block leaf found apart empty kind origin lookups scripts =>
      have isHidden : Hidden next visible shadow := by
        apply hidden_of_shadow _ kind
        rw [lookups, if_neg apart, if_pos rfl]
      rw [scripts]
      refine order.of_padded (fun id stored lookup => ?_) (.refl _)
      rw [lookups]
      by_cases isOwner : id = owner
      · subst isOwner
        obtain rfl := Option.some.inj (found.symm.trans lookup)
        refine ⟨_, if_pos rfl, ?_⟩
        rw [visible_congr (Block.opcode_of_frame (block.frame_withInput name _))]
        obtain ⟨left, right, before, after⟩ := references_plug shadow empty
        rw [after, visible]
        split
        · rw [before]
          exact .some (.insert isHidden left right)
        · exact .none
      · refine ⟨stored, ?_, ?_⟩
        · rw [if_neg isOwner]
          split
          · rename_i isShadow
            subst isShadow
            rcases origin with ⟨same, -⟩ | ⟨fresh, -⟩
            · exact same.symm.trans lookup
            · cases fresh.symm.trans lookup
          · exact lookup
        · exact Padded.rel_refl (visible stored)
  write {arena} order id name field := by
    apply order.of_links
    intro other block found
    rw [Arena.get?_modifyBlock, found]
    split
    · exact ⟨_, rfl, rfl⟩
    · exact ⟨block, rfl, rfl⟩

end Outline

theorem Arena.Writable.imp {condition : Arena → Prop} (writable : Writable condition)
    (assumption : Prop) : Writable fun arena => assumption → condition arena where
  uncounted holds same given := writable.uncounted (holds given) same
  readied linked holds readied given := writable.readied linked (holds given) readied
  write holds id name field given := writable.write (holds given) id name field

namespace Project

/-- What can be listed is numbered in preorder. -/
theorem numbering_of_order {project : Project} (linked : project.WellLinked) {index : Nat}
    {target : Target} (required : project.requireEditing = .ok (index, target)) {ids : List String}
    (order : Preorder target.blocks Outline.visible target.blocks.scripts ids) (editor : Editor)
    (options : ListingOptions) :
    ∃ listing, project.listing editor options = .ok listing ∧ listing.numbering = ids := by
  obtain ⟨listing, listed, shows⟩ := listing_of_wellLinked linked required editor options
  exact ⟨listing, listed, shows.order.unique order⟩

/-- A change that keeps whatever writing a field keeps does not change the preorder of the editing
target. -/
theorem after_order {α : Type} {change : Revision Project α}
    (transacts : ∀ condition : Nat → Arena → Prop, (∀ index, Arena.Writable (condition index)) →
      Transacts condition change)
    {project : Project} (linked : project.WellLinked) {index : Nat} {target : Target}
    (required : project.requireEditing = .ok (index, target)) {ids : List String}
    (order : Preorder target.blocks Outline.visible target.blocks.scripts ids) :
    Revision.After change project (fun _ next => next.WellLinked ∧ ∃ changed,
      next.requireEditing = .ok (index, changed) ∧
        Preorder changed.blocks Outline.visible changed.blocks.scripts ids) fun _ _ => True := by
  obtain ⟨chosen, found⟩ := requireEditing_eq_ok required
  let condition : Nat → Arena → Prop := fun position arena =>
    position = index → Preorder arena Outline.visible arena.scripts ids
  have sound : project.Sound condition (project.targets.map Target.isStage) (some index) := by
    refine ⟨linked, ?_, rfl, chosen⟩
    rintro position other lookup rfl
    obtain rfl := Option.some.inj (found.symm.trans lookup)
    exact order
  have keeps := transacts condition
    (fun position => (Outline.writable_numbering ids).imp (position = index)) _ _ _ sound
  apply keeps.mono
  · intro _ next kept
    have flags : (next.targets.map Target.isStage)[index]? =
        (project.targets.map Target.isStage)[index]? := by rw [kept.stages]
    rw [List.getElem?_map, List.getElem?_map, found, Option.map_some] at flags
    obtain ⟨other, lookup, -⟩ := Option.map_eq_some_iff.mp flags
    exact ⟨kept.linked, other, requireEditing_of_get? kept.editing lookup,
      kept.blocks index other lookup rfl⟩
  · intro _ _ _
    trivial

end Project

namespace Session

open Revision

variable {session : Session}

/-- The numbering that is remembered, if any, is that of the editing target. -/
def Coherent (session : Session) : Prop :=
  ∀ ids, session.numbering = some ids → ∃ index target,
    session.project.requireEditing = .ok (index, target) ∧
      Preorder target.blocks Outline.visible target.blocks.scripts ids

theorem coherent_of_none (forgotten : session.numbering = none) : session.Coherent := by
  intro ids remembered
  rw [forgotten] at remembered
  cases remembered

/-- An operation that does not renumber keeps whatever writing a field keeps. -/
theorem transacts_of_renumbers {operation : Operation} (kept : operation.renumbers = false)
    (editor : Editor) {condition : Nat → Arena → Prop}
    (writable : ∀ index, Arena.Writable (condition index)) :
    Project.Transacts condition (operation.change editor) := by
  intro stages editing project sound
  cases operation with
  | setField block name value =>
    exact (after_map _ _).mpr
      (Project.transacts_setField writable editor block name value stages editing project sound)
  | declare kind name scope =>
    exact (after_map _ _).mpr
      (Project.transacts_declare kind name scope stages editing project sound)
  | _ => cases kept

theorem coherent_of_answered (linked : session.project.WellLinked) (coherent : session.Coherent)
    {request : Request} {payload : Json} {next : Session}
    (answered : Answered session request payload next) : next.Coherent := by
  cases answered with
  | @listed listing listed =>
    rintro ids ⟨⟩
    cases required : session.project.requireEditing with
    | error fault =>
      simp only [Project.listing, required, bind, Except.bind] at listed
      cases listed
    | ok chosen =>
      obtain ⟨same, shown, shows⟩ :=
        Project.listing_of_wellLinked linked required session.editor session.options
      obtain rfl := Except.ok.inj (shown.symm.trans listed)
      exact ⟨chosen.1, chosen.2, rfl, shows.order⟩
  | @ran operation _ project asks changed _ =>
    cases renumbers : operation.renumbers with
    | true => exact coherent_of_none rfl
    | false =>
      intro ids remembered
      obtain ⟨index, target, required, order⟩ := coherent ids remembered
      have keeps := Project.after_order
        (fun _ writable => transacts_of_renumbers renumbers session.editor writable)
        linked required order
      obtain ⟨-, other, chosen, kept⟩ := (after_of_ok changed).mp keeps
      exact ⟨index, other, chosen, kept⟩

theorem Coherent.of_refused (coherent : session.Coherent) {fault : Fault} {next : Session}
    (refused : Refused fault next session) : next.Coherent := by
  intro ids remembered
  rw [refused.same] at remembered
  obtain ⟨index, target, required, order⟩ := coherent ids remembered
  obtain ⟨chosen, found⟩ := Project.requireEditing_eq_ok required
  obtain ⟨other, lookup, equal⟩ := refused.project.targets.get found
  refine ⟨index, other, ?_, Outline.order_of_uncounted order (congrArg Target.blocks equal)⟩
  exact Project.requireEditing_of_get? (refused.project.editing.trans chosen) lookup

theorem execute_coherent (linked : session.project.WellLinked) (coherent : session.Coherent)
    (request : Request) : (session.execute request).2.Coherent := by
  rcases session.execute_answers request with ⟨_, _, executed, answered⟩ | ⟨_, _, executed, failed⟩
  · rw [executed]
    exact coherent_of_answered linked coherent answered
  · rw [executed]
    exact coherent.of_refused (failed.refused_of_sound Arena.lasting_true
      (sound_of_wellLinked linked) (session.permits_true request))

theorem executeAll_coherent (linked : session.project.WellLinked) (coherent : session.Coherent)
    (requests : List Request) : (session.executeAll requests).2.Coherent := by
  induction requests generalizing session with
  | nil => exact coherent
  | cons request rest ih =>
    rw [executeAll_cons]
    exact ih (execute_wellLinked linked request).1 (execute_coherent linked coherent request)

/-- A number in a request stands for the block with that number. -/
theorem blockArgument_of_number {ids : List String} (remembered : session.numbering = some ids)
    {args index : Json} {idKey indexKey : String} {number : Nat} (unnamed : args.textAt? idKey = none)
    (given : args.get? indexKey = some index) (isNumber : index.nat? = some number)
    (positive : 1 ≤ number) (id : String) :
    session.blockArgument args idKey indexKey = .ok id ↔ ids[number - 1]? = some id := by
  rw [blockArgument, unnamed, given]
  simp only [isNumber, remembered, Option.filter_some, positive, decide_true, if_true]
  cases ids[number - 1]? with
  | none => simp
  | some held => simp

def listBlocksRequest (args : Json) : Request :=
  ⟨"get_blocks_pseudocode", args⟩

/-- A listing is answered with the context of the editing target, and remembered by its numbering. -/
theorem execute_list_eq {listing : Listing}
    (listed : session.project.listing session.editor session.options = .ok listing) (args : Json) :
    session.execute (listBlocksRequest args) =
      (Envelope.success (Answer.blocks session.project listing),
        { session with numbering := some listing.numbering }) := by
  have named : Api.ofName (Text.trim "get_blocks_pseudocode") = .ok .listBlocks := by decide +kernel
  have ends : After (dispatch (listBlocksRequest args)) session
      (fun payload next => payload = Answer.blocks session.project listing ∧
        next = { session with numbering := some listing.numbering })
      fun _ _ => False := by
    simp [dispatch, listBlocksRequest, named, perform, listBlocks, list, listed]
  obtain ⟨_, _, ended, rfl, rfl⟩ := exists_ok_of_after ends
  rw [execute, ended]

theorem execute_list {listing : Listing}
    (listed : session.project.listing session.editor session.options = .ok listing) (args : Json) :
    (session.execute (listBlocksRequest args)).2 =
      { session with numbering := some listing.numbering } := by
  rw [execute_list_eq listed]

/-- Whatever was requested, a numbering that is remembered is the one of every new listing: numbers
in requests stand for the blocks that it numbers, and asking for it changes nothing. -/
theorem numbering_of_requests (session : Session) (unlisted : session.numbering = none)
    (linked : ∀ target ∈ session.project.targets, target.blocks.WellLinked)
    (requests : List Request) (ids : List String)
    (remembered : (session.executeAll requests).2.numbering = some ids) :
    let reached := (session.executeAll requests).2
    (∀ editor options, ∃ listing, reached.project.listing editor options = .ok listing ∧
      listing.numbering = ids ∧
      ∀ args idKey indexKey index number, args.textAt? idKey = none →
        args.get? indexKey = some index → index.nat? = some number → 1 ≤ number →
        ∀ id, reached.blockArgument args idKey indexKey = .ok id ↔
          listing.records[number - 1]?.map Record.id = some id) ∧
      ∀ args, (reached.execute (listBlocksRequest args)).2 = reached := by
  intro reached
  have reachedLinked : reached.project.WellLinked := executeAll_wellLinked linked requests
  have coherent : reached.Coherent :=
    executeAll_coherent linked (coherent_of_none unlisted) requests
  obtain ⟨index, target, required, order⟩ := coherent ids remembered
  constructor
  · intro editor options
    obtain ⟨listing, listed, rfl⟩ :=
      Project.numbering_of_order reachedLinked required order editor options
    refine ⟨listing, listed, rfl, ?_⟩
    intro args idKey indexKey index number unnamed given isNumber positive id
    rw [blockArgument_of_number remembered unnamed given isNumber positive, Listing.numbering,
      List.getElem?_map]
  · intro args
    obtain ⟨listing, listed, rfl⟩ :=
      Project.numbering_of_order reachedLinked required order reached.editor reached.options
    rw [execute_list listed, ← remembered]

def writeSteps : Request :=
  ⟨"set_block_field", .ofMembers
    [("blockIndex", .ofNat 1), ("fieldName", .text "STEPS"), ("value", .text "3")]⟩

/-- A block is added and listed, and then written to by its number. -/
theorem numbering_of_requests_oneSprite :
    oneSprite.numbering = none ∧
      (∀ target ∈ oneSprite.project.targets, target.blocks.WellLinked) ∧
      (oneSprite.executeAll [addMotion, listBlocksRequest .null, writeSteps]).2.numbering =
        some ["block_1"] ∧
      ∀ args, ((oneSprite.executeAll [addMotion, listBlocksRequest .null, writeSteps]).2.execute
        (listBlocksRequest args)).2 =
          (oneSprite.executeAll [addMotion, listBlocksRequest .null, writeSteps]).2 := by
  have linked := oneSprite_every Arena.wellLinked_empty
  let added := (oneSprite.execute addMotion).2
  have addedLinked : added.project.WellLinked := (execute_wellLinked linked addMotion).1
  have listed : (added.execute (listBlocksRequest .null)).2 =
      { added with numbering := some ["block_1"] } := by
    obtain ⟨target, required, scripts, ⟨block, found, shown⟩, ⟨leaf, leafFound, hidden⟩⟩ :
        ∃ target, added.project.requireEditing = .ok (0, target) ∧
          target.blocks.scripts = ["block_1"] ∧
          (∃ block, target.blocks.get? "block_1" = some block ∧
            Outline.visible block = some ["shadow_2"]) ∧
          ∃ leaf, target.blocks.get? "shadow_2" = some leaf ∧ Outline.visible leaf = none :=
      ⟨_, rfl, rfl, ⟨_, rfl, by decide +kernel⟩, ⟨_, rfl, by decide +kernel⟩⟩
    have order : Preorder target.blocks Outline.visible target.blocks.scripts ["block_1"] := by
      rw [scripts]
      exact .shown found shown (.hidden leafFound hidden .done) .done
    obtain ⟨listing, listed, numbering⟩ :=
      Project.numbering_of_order addedLinked required order added.editor added.options
    rw [execute_list listed, numbering]
  have remembered :
      (oneSprite.executeAll [addMotion, listBlocksRequest .null, writeSteps]).2.numbering =
        some ["block_1"] := by
    rw [executeAll_cons, executeAll_cons, executeAll_cons, listed]
    decide +kernel
  have reached := numbering_of_requests oneSprite rfl linked
    [addMotion, listBlocksRequest .null, writeSteps] ["block_1"] remembered
  exact ⟨rfl, linked, remembered, reached.2⟩

end Session

end BlockGraph
