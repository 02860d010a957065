import BlockGraph.Proofs.Dict
import BlockGraph.Proofs.Places

/-!
Exchanging a block for another one. `exchange` says for all slots of a block at once what becomes of
them when one block gives up its place: whatever held it holds the new block, and an input that is
given none shows its shadow. In a well-linked arena a block has one place at most, so the search for
that place comes to the same, and a block is unplugged by exchanging it for none everywhere.
-/

set_option autoImplicit false

namespace BlockGraph

/-- What a slot holds once `new` has taken the place of `old`. -/
def exchanged (old : String) (new slot : Option String) : Option String :=
  if slot = some old then new else slot

theorem exchanged_of_ne {old : String} {new slot : Option String} (other : slot ≠ some old) :
    exchanged old new slot = slot :=
  if_neg other

namespace Input

variable {head : Input} {inputs rest : List Input} {old : String} {new : Option String}

/-- An input that loses its block without getting another one shows its shadow. -/
def exchange (old : String) (new : Option String) (input : Input) : Input :=
  if input.block = some old then { input with block := new.or input.shadow } else input

theorem map_exchange_self (absent : ∀ input ∈ inputs, input.block ≠ some old) :
    inputs.map (exchange old new) = inputs := by
  have same : ∀ input ∈ inputs, exchange old new input = id input :=
    fun input member => if_neg (absent input member)
  rw [List.map_congr_left same, List.map_id]

/-- Inputs that own different blocks are told apart by what is plugged into them. -/
theorem not_plugged_of_head (distinct : ((head :: rest).flatMap childIds).Nodup)
    (plugged : head.block = some old) : ∀ input ∈ rest, input.block ≠ some old := by
  intro input member other
  rw [List.flatMap_cons, List.nodup_append] at distinct
  refine distinct.2.2 old (mem_childIds_iff.mpr (.inl plugged)) old ?_ rfl
  exact List.mem_flatMap.mpr ⟨input, member, mem_childIds_iff.mpr (.inl other)⟩

theorem modifyFirst_eq_map (distinct : (inputs.flatMap childIds).Nodup) (old : String)
    (new : Option String) :
    modifyFirst (fun input => input.block = some old)
        (fun input => { input with block := new.or input.shadow }) inputs =
      inputs.map (exchange old new) := by
  induction inputs with
  | nil => rfl
  | cons head rest ih =>
    rw [modifyFirst, List.map_cons]
    split
    · rename_i hit
      have plugged : head.block = some old := by simpa using hit
      rw [map_exchange_self (not_plugged_of_head distinct plugged), exchange, if_pos plugged]
    · rename_i miss
      have other : head.block ≠ some old := by simpa using miss
      rw [List.flatMap_cons, List.nodup_append] at distinct
      rw [ih distinct.2.1, exchange, if_neg other]

end Input

namespace Block

/-- Puts `new` in every place that refers to `old`. -/
def exchange (old : String) (new : Option String) (block : Block) : Block :=
  { block with
    inputs := block.inputs.map (Input.exchange old new)
    branches := ⟨exchanged old new block.branches.first, exchanged old new block.branches.second⟩
    next := exchanged old new block.next }

variable {block changed : Block} {old : String} {new : Option String}

theorem branch_exchange (old : String) (new : Option String) (block : Block) (branch : Branch) :
    (block.exchange old new).branch branch = exchanged old new (block.branch branch) := by
  cases branch <;> rfl

theorem exchange_branches_self (absent : ∀ branch, block.branch branch ≠ some old) :
    (⟨exchanged old new block.branches.first, exchanged old new block.branches.second⟩ : Branches) =
      block.branches := by
  have first : block.branches.first ≠ some old := absent .first
  have second : block.branches.second ≠ some old := absent .second
  rw [exchanged_of_ne first, exchanged_of_ne second]

/-- A block that does not own the old one is left as it is. -/
theorem exchange_eq_self (absent : old ∉ block.childIds) : block.exchange old new = block := by
  have below : block.next ≠ some old := fun below => absent (mem_childIds_of_next below)
  rw [exchange, Input.map_exchange_self fun input member plugged =>
      absent (mem_childIds_of_block member plugged),
    exchange_branches_self fun branch head => absent (mem_childIds_of_branch head),
    exchanged_of_ne below]

theorem nodup_inputs (distinct : block.childIds.Nodup) :
    (block.inputs.flatMap Input.childIds).Nodup := by
  rw [childIds, List.append_assoc, List.nodup_append] at distinct
  exact distinct.1

/-- A block that is owned once is chained in one way. -/
theorem chains_once (distinct : block.childIds.Nodup) :
    (∀ branch, block.branch branch = some old → block.next ≠ some old) ∧
      (block.branch .first = some old → block.branch .second ≠ some old) := by
  rw [childIds_eq, List.append_assoc, List.append_assoc, List.nodup_append] at distinct
  obtain ⟨-, distinct, -⟩ := distinct
  simp only [List.nodup_append, List.mem_append, Option.mem_toList] at distinct
  obtain ⟨-, ⟨-, -, belowSecond⟩, apart⟩ := distinct
  refine ⟨fun branch head below => ?_, fun first second => apart old first old (.inl second) rfl⟩
  cases branch with
  | first => exact apart old head old (.inr below) rfl
  | second => exact belowSecond old head old below rfl

section

variable (distinct : block.childIds.Nodup)

include distinct

theorem not_plugged_of_chains (chains : block.Chains old) :
    ∀ input ∈ block.inputs, input.block ≠ some old :=
  fun input member plugged => not_chains_of_holds distinct ⟨input, member, .inl plugged⟩ chains

theorem exchange_of_next (below : block.next = some old) :
    block.exchange old new = { block with next := new } := by
  have branches : ∀ branch, block.branch branch ≠ some old :=
    fun branch head => (chains_once distinct).1 branch head below
  rw [exchange, Input.map_exchange_self (not_plugged_of_chains distinct (.inl below)),
    exchange_branches_self branches, exchanged, if_pos below]

theorem exchange_of_branch {branch : Branch} (head : block.branch branch = some old) :
    block.exchange old new = block.setBranch branch new := by
  rw [exchange, Input.map_exchange_self (not_plugged_of_chains distinct (.inr ⟨branch, head⟩)),
    exchanged_of_ne ((chains_once distinct).1 branch head)]
  cases branch with
  | first =>
    have held : block.branches.first = some old := head
    have second : block.branches.second ≠ some old := (chains_once distinct).2 head
    rw [exchanged_of_ne second, exchanged, if_pos held]
    rfl
  | second =>
    have held : block.branches.second = some old := head
    have first : block.branches.first ≠ some old := fun first => (chains_once distinct).2 first head
    rw [exchanged_of_ne first, exchanged, if_pos held]
    rfl

theorem exchange_of_plugged {slot : Input} (member : slot ∈ block.inputs)
    (plugged : slot.block = some old) : block.exchange old new =
      { block with inputs := block.inputs.map (Input.exchange old new) } := by
  have unchained : ¬block.Chains old :=
    fun chains => not_plugged_of_chains distinct chains slot member plugged
  have branches : ∀ branch, block.branch branch ≠ some old :=
    fun branch head => unchained (.inr ⟨branch, head⟩)
  have below : block.next ≠ some old := fun below => unchained (.inl below)
  rw [exchange, exchange_branches_self branches, exchanged_of_ne below]

/-- Where every block is owned once, the first place that refers to a block is the only one. -/
theorem exchange_of_replaceChild? (replaced : block.replaceChild? old new = some changed) :
    changed = block.exchange old new := by
  rcases replaceChild?_cases replaced with
    ⟨below, rfl⟩ | ⟨branch, head, rfl⟩ | ⟨slot, member, plugged, -, rfl⟩
  · rw [exchange_of_next distinct below]
  · rw [exchange_of_branch distinct head]
  · rw [exchange_of_plugged distinct member plugged,
      Input.modifyFirst_eq_map (nodup_inputs distinct)]

end

end Block

namespace Arena

open Forest Revision

variable {arena : Arena} {id other : String} {block : Block} {new : Option String}

/-- The arena with a block in no slot: what held it is free or shows its shadow, and the block has no
parent. -/
def unplugged (arena : Arena) (id : String) : Arena :=
  { arena with
    blocks := arena.blocks.map fun key block =>
      if key = id then { block.exchange id none with parent := none } else block.exchange id none }

theorem get?_unplugged (arena : Arena) (id other : String) :
    (arena.unplugged id).get? other = (arena.get? other).map fun block =>
      if other = id then { block.exchange id none with parent := none }
      else block.exchange id none :=
  arena.blocks.get?_map _ other

theorem ids_unplugged (arena : Arena) (id : String) : (arena.unplugged id).ids = arena.ids := by
  refine Dict.keys_eq_of_isSome fun other => ?_
  have lookup := congrArg Option.isSome (arena.get?_unplugged id other)
  rwa [Option.isSome_map] at lookup

theorem exists_get?_unplugged (arena : Arena) (id other : String) :
    (∃ block, (arena.unplugged id).get? other = some block) ↔
      ∃ block, arena.get? other = some block := by
  rw [get?_unplugged]
  cases arena.get? other <;> simp

theorem parent?_unplugged (arena : Arena) (id other : String) :
    (arena.unplugged id).parent? other = if other = id then none else arena.parent? other := by
  rw [parent?, parent?, get?_unplugged]
  cases arena.get? other with
  | none => simp
  | some block => by_cases same : other = id <;> simp [same, Block.exchange]

theorem below?_unplugged (arena : Arena) (id other : String) :
    (arena.unplugged id).below? other = exchanged id none (arena.below? other) := by
  rw [below?, below?, get?_unplugged]
  cases arena.get? other with
  | none => rfl
  | some block => by_cases same : other = id <;> simp [same, Block.exchange]

namespace WellLinked

theorem distinct_childIds (linked : arena.WellLinked) (found : arena.get? id = some block) :
    block.childIds.Nodup := by
  rw [← childrenAt_of_get? found]
  exact linked.forest.distinct id

/-- A block refers to its children only. -/
theorem exchange_eq_self (linked : arena.WellLinked) (found : arena.get? other = some block)
    (stranger : arena.parent? id ≠ some other) : block.exchange id new = block := by
  apply Block.exchange_eq_self
  intro member
  rw [← childrenAt_of_get? found] at member
  exact stranger (linked.forest.parent_of_mem member)

theorem exchange_own_id (linked : arena.WellLinked) (found : arena.get? id = some block) :
    block.exchange id new = block :=
  linked.exchange_eq_self found fun up => (linked.forest.rooted id).ne_parent up rfl

theorem get?_unplugged_self (linked : arena.WellLinked) (found : arena.get? id = some block) :
    (arena.unplugged id).get? id = some { block with parent := none } := by
  rw [get?_unplugged, found, Option.map_some, if_pos rfl, linked.exchange_own_id found]

/-- A block without a parent is in no slot. -/
theorem unplugged_eq_self (linked : arena.WellLinked) (free : arena.parent? id = none) :
    arena.unplugged id = arena := by
  refine eq_of_get? (fun other => ?_) rfl rfl
  rw [get?_unplugged]
  cases found : arena.get? other with
  | none => rfl
  | some block =>
    have same : block.exchange id none = block :=
      linked.exchange_eq_self found (by rw [free]; simp)
    rw [Option.map_some, same]
    split
    · rename_i hit
      subst hit
      rw [parent?_of_get? found] at free
      rw [← free]
    · rfl

end WellLinked

/-- Taking a block from its parent unplugs it. -/
theorem unlink_eq (linked : arena.WellLinked) (found : arena.get? id = some block)
    (solid : ¬arena.IsShadow id) : unlink id arena = .ok () (arena.unplugged id) := by
  have ended : After (unlink id) arena (fun _ next => next = arena.unplugged id)
      fun _ _ => False := by
    apply ((loosed_of_unlink found).and (after_unlink linked found solid)).mono
    · rintro _ _ ⟨loosed, -⟩
      cases loosed with
      | top above => exact (linked.unplugged_eq_self ((parent?_of_get? found).trans above)).symm
      | @taken parent owner changed above ownerFound replaced =>
        have up : arena.parent? id = some parent := (parent?_of_get? found).trans above
        have apart : parent ≠ id := (linked.forest.rooted id).ne_parent up
        have exchanged := Block.exchange_of_replaceChild? (linked.distinct_childIds ownerFound) replaced
        refine eq_of_get? (fun other => ?_) rfl rfl
        rw [get?_modifyBlock, get?_modifyBlock, get?_unplugged]
        cases lookup : arena.get? other with
        | none => simp
        | some held =>
          by_cases isId : other = id
          · subst isId
            simp [Ne.symm apart, linked.exchange_own_id lookup]
          · by_cases isParent : other = parent
            · subst isParent
              cases Option.some.inj (ownerFound.symm.trans lookup)
              simp [apart, exchanged]
            · have stranger : arena.parent? id ≠ some other := by
                rw [up]
                exact fun same => isParent (Option.some.inj same).symm
              simp [isId, isParent, linked.exchange_eq_self lookup stranger]
    · rintro _ _ ⟨-, never⟩
      exact never
  obtain ⟨⟨⟩, _, ran, rfl⟩ := exists_ok_of_after ended
  exact ran

end Arena

end BlockGraph
