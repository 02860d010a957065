import BlockGraph.Proofs.Grafting

/-!
Connecting a detached block where it was undoes the detaching. The block that goes back displaces
nothing, since its place is free or shows the shadow that was there; so its place, its mark and its
coordinates are what they were, and the end of the list of scripts, where it stood, is gone again.
-/

set_option autoImplicit false

namespace BlockGraph

namespace Input

/-- What has been plugged out of an input goes back on top of its shadow. -/
theorem modifyFirst_exchange {inputs : List Input} {id name : String} {slot : Input}
    (distinct : (inputs.flatMap childIds).Nodup)
    (found : inputs.find? (fun input => input.name = name) = some slot)
    (plugged : slot.block = some id) :
    modifyFirst (fun input => input.name = name) (plug id) (inputs.map (exchange id none)) =
      inputs := by
  induction inputs with
  | nil => cases found
  | cons head rest ih =>
    rw [List.map_cons, modifyFirst]
    rw [List.find?_cons] at found
    by_cases named : head.name = name
    · simp only [named, decide_true, Option.some.injEq] at found
      subst found
      have taken : exchange id none head = { head with block := head.shadow } := by
        rw [exchange, if_pos plugged, Option.none_or]
      have restored : plug id { head with block := head.shadow } = head := by
        cases head
        simp_all [plug]
      rw [taken, if_pos (by simpa using named), restored,
        map_exchange_self (not_plugged_of_head distinct plugged)]
    · simp only [named, decide_false] at found
      have other : head.block ≠ some id := by
        intro same
        exact not_plugged_of_head distinct same slot (List.mem_of_find?_eq_some found) plugged
      have restDistinct : (rest.flatMap childIds).Nodup := by
        rw [List.flatMap_cons, List.nodup_append] at distinct
        exact distinct.2.1
      rw [exchange, if_neg other, if_neg (by simpa using named), ih restDistinct found]

end Input

namespace Block

variable {owner block : Block} {id : String} {placement : Placement}

/-- The place of a block on its owner, where this place takes the block back: a hat goes below no other
block, a branch has to be one of the owner's type, and an input takes a block with none below it. -/
def StandsAt (owner block : Block) (id : String) : Placement → Prop
  | .stackAfter => owner.next = some id ∧ Catalog.isHat block.opcode = false
  | .statementInto name => ∃ branch, branch.name = name ∧ owner.branch branch = some id ∧
      Catalog.isHat block.opcode = false ∧ branch ∈ Catalog.expectedBranches owner.opcode
  | .valueInto name => owner.plugged? name = some id ∧ block.next = none

/-- A block that has been taken out of its place leaves nothing that it would displace. -/
theorem displaced?_exchange (stands : owner.StandsAt block id placement) :
    (owner.exchange id none).displaced? placement = none := by
  cases placement with
  | stackAfter => simp [displaced?, exchange, exchanged, stands.1]
  | statementInto name =>
    obtain ⟨branch, named, head, -⟩ := stands
    simp [displaced?, Branch.ofName?_eq_some_iff.mpr named, branch_exchange, exchanged, head]
  | valueInto name => rfl

theorem input?_exchange (old : String) (new : Option String) (block : Block) (name : String) :
    (block.exchange old new).input? name = (block.input? name).map (Input.exchange old new) := by
  have keeps : ∀ input, (Input.exchange old new input).name = input.name := by
    intro input
    rw [Input.exchange]
    split <;> rfl
  have tests : (fun input : Input => decide (input.name = name)) ∘ Input.exchange old new =
      fun input => decide (input.name = name) := by
    funext input
    rw [Function.comp_apply, keeps]
  rw [input?, input?, exchange, List.find?_map, tests]

theorem setBranch_restore {branch : Branch} (head : block.branch branch = some id) :
    (block.setBranch branch none).setBranch branch (some id) = block := by
  have same : (block.branches.set branch none).set branch (some id) = block.branches := by
    have held : block.branches.get branch = some id := head
    cases branch <;> rw [← held] <;> rfl
  rw [setBranch, setBranch, same]

/-- Putting a block back into the place it was taken from. -/
theorem put_exchange (distinct : owner.childIds.Nodup)
    (stands : owner.StandsAt block id placement) :
    (owner.exchange id none).put id placement = owner := by
  cases placement with
  | stackAfter =>
    rw [exchange_of_next distinct stands.1, put, ← stands.1]
  | statementInto name =>
    obtain ⟨branch, named, head, -⟩ := stands
    rw [exchange_of_branch distinct head, put, Branch.ofName?_eq_some_iff.mpr named]
    exact setBranch_restore head
  | valueInto name =>
    obtain ⟨slot, found, plugged⟩ := Option.bind_eq_some_iff.mp stands.1
    have present : ((owner.exchange id none).input? name).isSome := by
      rw [input?_exchange, found]
      rfl
    rw [put, withInput, if_pos present, modifyInput,
      exchange_of_plugged distinct (List.mem_of_find?_eq_some found) plugged,
      Input.modifyFirst_exchange (nodup_inputs distinct) found plugged]

end Block

namespace Arena

open Forest Revision

variable {arena : Arena} {id parent : String} {block owner : Block} {placement : Placement}
  {height : Binary64}

/-- The arena with a block taken from its parent and made a script at some height. -/
def parked (arena : Arena) (id : String) (height : Binary64) : Arena :=
  ((arena.unplugged id).setTopLevel id true).modifyBlock id
    ({ · with x := some Binary64.zero, y := some height })

theorem get?_parked (arena : Arena) (id : String) (height : Binary64) (other : String) :
    (arena.parked id height).get? other = (arena.get? other).map fun block =>
      if other = id then
        { block.exchange id none with
          parent := none, topLevel := true, x := some Binary64.zero, y := some height }
      else block.exchange id none := by
  rw [parked, get?_modifyBlock, get?_setTopLevel, get?_unplugged]
  by_cases same : other = id
  · cases arena.get? other <;> simp [same]
  · simp [same]

theorem parent?_parked (arena : Arena) (id : String) (height : Binary64) (other : String) :
    (arena.parked id height).parent? other = if other = id then none else arena.parent? other := by
  rw [parent?, parent?, get?_parked]
  cases arena.get? other with
  | none => simp
  | some block => by_cases same : other = id <;> simp [same, Block.exchange]

theorem detach_eq (linked : arena.WellLinked) (found : arena.get? id = some block)
    (solid : Catalog.kind block.opcode ≠ .shadow) (up : block.parent = some parent) :
    detach id arena = .ok (some parent) (arena.parked id arena.nextScriptHeight) := by
  have notShadow : ¬arena.IsShadow id := not_isShadow found solid
  have loose := linked.get?_unplugged_self found
  have marked : ∃ block, ((arena.unplugged id).setTopLevel id true).get? id = some block := by
    rw [get?_setTopLevel, loose]
    simp
  obtain ⟨script, scriptFound⟩ := marked
  have ended : After (detach id) arena (fun value next =>
      value = some parent ∧ next = arena.parked id arena.nextScriptHeight) fun _ _ => False := by
    rw [detach, after_bind, after_get, after_bind, movable_of_get? found solid, after_check]
    refine ⟨?_, by simp⟩
    rintro _ ⟨⟩
    simp only [up, Option.isSome_some, if_true]
    rw [after_bind, after_get, after_bind, after_of_ok (unlink_eq linked found notShadow), after_bind,
      after_markTopLevel_of_get? loose, after_bind, after_update_of_get? scriptFound, after_pure]
    exact ⟨rfl, rfl⟩
  obtain ⟨_, _, ran, rfl, rfl⟩ := exists_ok_of_after ended
  exact ran

/-- A block that may be moved, its parent, and the place on it where the block stands. -/
structure Seated (arena : Arena) (id parent : String) (block owner : Block) (placement : Placement) :
    Prop where
  found : arena.get? id = some block
  solid : Catalog.kind block.opcode ≠ .shadow
  up : block.parent = some parent
  ownerFound : arena.get? parent = some owner
  ownerSolid : Catalog.kind owner.opcode ≠ .shadow
  stands : owner.StandsAt block id placement

namespace Seated

theorem link (seated : arena.Seated id parent block owner placement) :
    arena.parent? id = some parent := by
  rw [parent?_of_get? seated.found, seated.up]

theorem apart (seated : arena.Seated id parent block owner placement) (linked : arena.WellLinked) :
    parent ≠ id :=
  (linked.forest.rooted id).ne_parent seated.link

theorem get?_parked_self (seated : arena.Seated id parent block owner placement)
    (linked : arena.WellLinked) (height : Binary64) :
    (arena.parked id height).get? id = some { block with
      parent := none, topLevel := true, x := some Binary64.zero, y := some height } := by
  rw [get?_parked, seated.found, Option.map_some, if_pos rfl, linked.exchange_own_id seated.found]

theorem get?_parked_owner (seated : arena.Seated id parent block owner placement)
    (linked : arena.WellLinked) (height : Binary64) :
    (arena.parked id height).get? parent = some (owner.exchange id none) := by
  rw [get?_parked, seated.ownerFound, Option.map_some, if_neg (seated.apart linked)]

theorem wellLinked_parked (seated : arena.Seated id parent block owner placement)
    (linked : arena.WellLinked) : (arena.parked id arena.nextScriptHeight).WellLinked :=
  (after_of_ok (detach_eq linked seated.found seated.solid seated.up)).mp (after_detach linked id)

/-- The input that a block was taken from shows its shadow or nothing. -/
theorem checkValueInput_parked {name : String}
    (seated : arena.Seated id parent block owner (.valueInto name)) (linked : arena.WellLinked)
    {moved : Block} (last : moved.next = none) :
    (arena.parked id height).checkValueInput id parent name moved (owner.exchange id none) =
      .ok () := by
  obtain ⟨slot, slotFound, plugged⟩ := Option.bind_eq_some_iff.mp seated.stands.1
  have member := List.mem_of_find?_eq_some slotFound
  have named : slot.name = name := by simpa using List.find?_some slotFound
  have isValue : Branch.ofName? name = none :=
    named ▸ (linked.tidy.blocks parent owner seated.ownerFound).valueInputs slot member
  have taken : (owner.exchange id none).input? name = some { slot with block := slot.shadow } := by
    rw [Block.input?_exchange, slotFound, Option.map_some, Input.exchange, if_pos plugged,
      Option.none_or]
  have shows : ∀ child, slot.shadow = some child → ∀ held,
      (arena.parked id height).get? child = some held → Catalog.kind held.opcode = .shadow := by
    intro child shadow held lookup
    obtain ⟨old, oldFound, kind⟩ :=
      ((linked.fitted parent owner seated.ownerFound).inputs slot member).shadow child shadow
    rw [get?_parked, oldFound, Option.map_some, Option.some.injEq] at lookup
    subst lookup
    split <;> exact kind
  have plugs : (owner.exchange id none).plugged? name = slot.shadow := by
    rw [Block.plugged?, taken]
    rfl
  have shadowed : ((slot.shadow.bind (arena.parked id height).get?).any
      fun block => !decide (Catalog.kind block.opcode = .shadow)) = false := by
    cases shadow : slot.shadow with
    | none => rfl
    | some child =>
      cases lookup : (arena.parked id height).get? child with
      | none => simp [lookup]
      | some held => simp [lookup, shows child shadow held lookup]
  simp [checkValueInput, isValue, last, taken, plugs, shadowed, pure, Except.pure]

theorem checkPlacement_parked (seated : arena.Seated id parent block owner placement)
    (linked : arena.WellLinked) :
    (arena.parked id arena.nextScriptHeight).checkPlacement id parent placement = .ok () := by
  have parkedLinked := seated.wellLinked_parked linked
  have moved := seated.get?_parked_self linked arena.nextScriptHeight
  have held := seated.get?_parked_owner linked arena.nextScriptHeight
  obtain ⟨subtree, walked, below⟩ := subtreeIds_of_linked parkedLinked.forest
    (fun _ _ => parkedLinked.found_of_mem) ⟨_, moved⟩
  have outside : parent ∉ subtree := by
    rw [below]
    intro above
    refine (linked.forest.rooted id).not_above_parent seated.link (above.mono fun lower higher up => ?_)
    rw [parent?_parked] at up
    split at up
    · cases up
    · exact up
  simp only [checkPlacement, movable_of_get? moved seated.solid,
    movable_of_get? held seated.ownerSolid, walked, Damage.orFault, bind, Except.bind,
    List.contains_eq_mem, outside, decide_false, Bool.false_eq_true, if_false]
  cases placement with
  | stackAfter => simp [seated.stands.2, pure, Except.pure]
  | statementInto name =>
    obtain ⟨branch, named, -, notHat, expected⟩ := seated.stands
    have opcode : (owner.exchange id none).opcode = owner.opcode := rfl
    simp [notHat, checkBranch, Branch.ofName?_eq_some_iff.mpr named, opcode, expected]
  | valueInto name => exact seated.checkValueInput_parked linked seated.stands.2

/-- Every block is again what it was, and the scripts are those that there were. -/
theorem hung_parked (seated : arena.Seated id parent block owner placement)
    (linked : arena.WellLinked) (height : Binary64) :
    ((arena.parked id height).setTopLevel id false).hung id parent owner = arena := by
  have apart := seated.apart linked
  have below : block.topLevel = false := by
    rw [Bool.eq_false_iff]
    intro top
    have free := (linked.top_iff id block seated.found).mp top
    rw [seated.up] at free
    cases free
  obtain ⟨noX, noY⟩ := (linked.tidy.blocks id block seated.found).placed below
  have restored : ({ block with parent := some parent, topLevel := false, x := none, y := none } :
      Block) = block := by
    have up := seated.up
    clear seated
    cases block
    subst up below noX noY
    rfl
  have unlisted : id ∉ arena.scripts := by
    rw [linked.tops seated.found, seated.link]
    simp
  refine eq_of_get? (fun other => ?_) ?_ rfl
  · rw [hung, get?_modifyBlock, get?_modifyBlock, get?_setTopLevel]
    by_cases isParent : other = parent
    · subst isParent
      simp [apart, seated.get?_parked_owner linked height, seated.ownerFound]
    · by_cases isId : other = id
      · subst isId
        simp [isParent, seated.get?_parked_self linked height, restored, seated.found]
      · cases found : arena.get? other with
        | none => simp [isParent, isId, get?_parked, found]
        | some held =>
          have stranger : arena.parent? id ≠ some other := by
            rw [seated.link]
            exact fun same => isParent (Option.some.inj same).symm
          simp [isParent, isId, get?_parked, found, linked.exchange_eq_self found stranger]
  · have scripts : (((arena.parked id height).setTopLevel id false).hung id parent owner).scripts =
        withoutScript (withScript arena.scripts id) id := rfl
    rw [scripts, withScript, if_neg (by simpa using unlisted), withoutScript, List.filter_append,
      List.filter_eq_self.mpr fun script listed => by simpa using ne_of_mem_of_not_mem listed unlisted]
    simp

/-- A detached block that is put back leaves the arena as it was. -/
theorem connect_parked (seated : arena.Seated id parent block owner placement)
    (linked : arena.WellLinked) :
    connect id parent placement (arena.parked id arena.nextScriptHeight) = .ok () arena := by
  have parkedLinked := seated.wellLinked_parked linked
  have passed := seated.checkPlacement_parked linked
  have settles : After (connect id parent placement) (arena.parked id arena.nextScriptHeight) _
      fun _ _ => False := (after_connect_settled parkedLinked id parent placement).mono
    (fun _ _ settled => settled) fun fault next failed => by
      rw [passed] at failed
      cases failed.2
  obtain ⟨⟨⟩, next, ran, moved, loose, held, tail, movedFound, solid, unlinked, settling, rfl⟩ :=
    exists_ok_of_after settles
  obtain rfl : arena.parked id arena.nextScriptHeight = loose := by
    have free : (arena.parked id arena.nextScriptHeight).parent? id = none := by
      rw [parent?_parked, if_pos rfl]
    rw [unlink_eq parkedLinked movedFound solid, parkedLinked.unplugged_eq_self free] at unlinked
    cases unlinked
    rfl
  obtain rfl : owner.exchange id none = held := by
    have found := seated.get?_parked_owner linked arena.nextScriptHeight
    exact Option.some.inj (found.symm.trans settling.found)
  have distinct := linked.distinct_childIds seated.ownerFound
  rw [ran, Block.displaced?_exchange seated.stands, Block.put_exchange distinct seated.stands, settled,
    seated.hung_parked linked]

end Seated

end Arena

namespace Project

variable {project : Project} {index : Nat} {target : Target} {id parent : String}
  {block owner : Block} {placement : Placement}

/-- Detaching a block and connecting it where it stood gives back the project, whatever the place. -/
theorem connectBlocks_undoes_detachBlocks (required : project.requireEditing = .ok (index, target))
    (linked : target.blocks.WellLinked)
    (seated : target.blocks.Seated id parent block owner placement) :
    ∃ parked, detachBlocks id project = .ok (some parent) parked ∧
      connectBlocks id parent placement parked = .ok () project := by
  have detached := Arena.detach_eq linked seated.found seated.solid seated.up
  refine ⟨_, (onEditingBlocks_eq_ok_iff required).mpr ⟨_, detached, rfl⟩, ?_⟩
  apply (onEditingBlocks_eq_ok_iff (requireEditing_putBlocks required _)).mpr
  refine ⟨target.blocks, seated.connect_parked linked, ?_⟩
  rw [putBlocks_putBlocks, putBlocks_same (requireEditing_eq_ok required).2]

/-- A statement below a loop, the head of its branch, and a sum on top of a shadow all go back. -/
theorem connectBlocks_undoes_detachBlocks_dance :
    danceArena.WellLinked ∧
      (∃ parked, detachBlocks "show" danceProject = .ok (some "loop") parked ∧
        connectBlocks "show" "loop" .stackAfter parked = .ok () danceProject) ∧
      (∃ parked, detachBlocks "move" danceProject = .ok (some "loop") parked ∧
        connectBlocks "move" "loop" (.statementInto "SUBSTACK") parked = .ok () danceProject) ∧
      ∃ parked, detachBlocks "sum" danceProject = .ok (some "move") parked ∧
        connectBlocks "sum" "move" (.valueInto "STEPS") parked = .ok () danceProject := by
  have required : danceProject.requireEditing = .ok (0, danceTarget) := rfl
  have undoes {id parent : String} {block owner : Block} {placement : Placement}
      (seated : danceArena.Seated id parent block owner placement) :=
    connectBlocks_undoes_detachBlocks required wellLinked_danceArena seated
  have loop : danceArena.get? "loop" =
      some { opcode := "control_repeat", parent := some "flag", next := some "show"
             inputs := [⟨"TIMES", some "times", some "times"⟩]
             branches := { first := some "move" } } := by decide +kernel
  have move : danceArena.get? "move" =
      some { opcode := "motion_movesteps", parent := some "loop"
             inputs := [⟨"STEPS", some "sum", some "steps"⟩] } := by decide +kernel
  have shows : danceArena.get? "show" =
      some { opcode := "looks_show", parent := some "loop", next := some "hide" } := by
    decide +kernel
  have sum : danceArena.get? "sum" = some { opcode := "operator_add", parent := some "move" } := by
    decide +kernel
  have below := undoes ⟨shows, by decide +kernel, rfl, loop, by decide +kernel,
    show Block.StandsAt _ _ "show" .stackAfter from ⟨by decide +kernel, by decide +kernel⟩⟩
  have inside := undoes ⟨move, by decide +kernel, rfl, loop, by decide +kernel,
    show Block.StandsAt _ _ "move" (.statementInto "SUBSTACK") from
      ⟨.first, by decide +kernel, by decide +kernel, by decide +kernel, by decide +kernel⟩⟩
  have plugged := undoes ⟨sum, by decide +kernel, rfl, move, by decide +kernel,
    show Block.StandsAt _ _ "sum" (.valueInto "STEPS") from
      ⟨by decide +kernel, by decide +kernel⟩⟩
  exact ⟨wellLinked_danceArena, below, inside, plugged⟩

end Project

end BlockGraph
