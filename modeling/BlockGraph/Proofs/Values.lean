import BlockGraph.Proofs.Places
import BlockGraph.Proofs.WellLinked.Sessions

/-!
Values have nothing below them. A block with others below it is not plugged into an input, and what is
below a deleted block never takes its place in one. Nothing keeps a block from being stacked below a
value, and that is the only way for a value to get one below it.
-/

set_option autoImplicit false

namespace BlockGraph

namespace Arena

variable {arena next : Arena} {shadows : Prop}

/-- What is plugged into inputs has nothing below it. -/
def PluggedEnd (arena : Arena) : Prop :=
  ∀ owner block, arena.get? owner = some block → ∀ input ∈ block.inputs,
    ∀ id, input.block = some id → arena.below? id = none

/-- The shadows of inputs, in sight or not, have nothing below them. -/
def ShadowsEnd (arena : Arena) : Prop :=
  ∀ owner block, arena.get? owner = some block → ∀ input ∈ block.inputs,
    ∀ id, input.shadow = some id → arena.below? id = none

/-- Whatever is held has nothing below it, where shadows may be left out. -/
def ValuesEnd (shadows : Prop) (arena : Arena) : Prop :=
  ∀ id, arena.Held id → shadows ∨ arena.IsSolid id → arena.below? id = none

/-- Nothing is stacked below a block that is held. -/
def SparesValues (arena : Arena) (_source target : String) : Placement → Prop
  | .stackAfter => ¬arena.Held target
  | .statementInto _ | .valueInto _ => True

theorem WellLinked.valuesEnd_of_plugged (linked : arena.WellLinked) (ends : arena.PluggedEnd) :
    arena.ValuesEnd False := by
  rintro id ⟨owner, block, found, input, member, held⟩ (never | ⟨value, lookup, solid⟩)
  · exact never.elim
  · rcases held with plugged | shadow
    · exact ends owner block found input member id plugged
    · have isShadow := ((linked.fitted owner block found).inputs input member).shadow id shadow
      exact absurd ((IsShadow.kind lookup).mp isShadow) solid

theorem valuesEnd_true_iff : arena.ValuesEnd True ↔ arena.PluggedEnd ∧ arena.ShadowsEnd := by
  constructor
  · intro ends
    constructor
    · intro owner block found input member id plugged
      exact ends id ⟨owner, block, found, input, member, .inl plugged⟩ (.inl trivial)
    · intro owner block found input member id shadow
      exact ends id ⟨owner, block, found, input, member, .inr shadow⟩ (.inl trivial)
  · rintro ⟨pluggedEnd, shadowsEnd⟩ id ⟨owner, block, found, input, member, plugged | shadow⟩ -
    · exact pluggedEnd owner block found input member id plugged
    · exact shadowsEnd owner block found input member id shadow

namespace ValuesEnd

theorem rearranged {held chained extended : String → Prop} (ends : arena.ValuesEnd shadows)
    (moved : Rearranged held chained extended arena next)
    (apart : ∀ id, arena.Held id → ¬extended id)
    (short : ∀ id, held id → arena.below? id = none ∧ ¬extended id) : next.ValuesEnd shadows := by
  intro id after counts
  by_contra longer
  rcases moved.held id after with before | new
  · rcases moved.extended id longer with old | grown
    · exact old (ends id before (counts.imp_right moved.isSolid))
    · exact apart id before grown
  · rcases moved.extended id longer with old | grown
    · exact old (short id new).1
    · exact (short id new).2 grown

theorem sheds (ends : arena.ValuesEnd shadows) (shed : Sheds arena next) : next.ValuesEnd shadows :=
  ends.rearranged shed (fun _ _ => id) fun _ => False.elim

end ValuesEnd

theorem positional_valuesEnd (shadows : Prop) : Positional SparesValues (ValuesEnd shadows) where
  sheds := ValuesEnd.sheds
  shadowed ends moved := by
    apply ends.rearranged moved
    · intro _ _ never
      exact never
    · intro id fresh
      exact ⟨by simp [below?, fresh], not_false⟩
  placed := by
    intro arena middle next spec id block added linked ends listed placed other after counts
    by_contra longer
    have before := placed.below?_ne_none longer
    rcases placed.held after with held | isShadow
    · apply before
      apply ends other held
      refine counts.imp_right ?_
      rintro ⟨stored, found, solid⟩
      rcases placed.get?_solid listed found solid with rfl | old
      · exact absurd (by simp [below?, placed.fresh]) before
      · exact ⟨stored, old, solid⟩
    · exact before (by simp [below?, placed.fresh_of_shadow isShadow])
  attached := by
    intro arena middle next source target placement moved linked ends spares found suits shed unheld
      attached
    have held {id : String} (after : middle.Held id) : arena.Held id := by
      simpa using shed.held id after
    -- The chain that was displaced goes below the new block or below a chained one.
    have apart {id : String} (after : middle.Held id) : ¬(id = source ∨ middle.Chained id) := by
      rintro (rfl | chained)
      · exact unheld after
      · exact linked.not_chained_of_held (held after) (by simpa using shed.chained id chained)
    cases placement with
    | stackAfter =>
      apply (ends.sheds shed).rearranged attached
      · rintro id after (rfl | grown)
        · exact spares (held after)
        · exact apart after grown
      · intro id never
        exact never.elim
    | statementInto input =>
      apply (ends.sheds shed).rearranged attached
      · intro id after grown
        exact apart after grown
      · intro id never
        exact never.elim
    | valueInto input =>
      apply (ends.sheds shed).rearranged attached
      · intro id _ never
        exact never
      · rintro id rfl
        refine ⟨?_, not_false⟩
        by_contra longer
        have before : arena.below? id ≠ none := by simpa using shed.extended id longer
        rw [below?_of_get? found] at before
        exact before suits
  promoted ends moved := by
    apply ends.rearranged moved
    · intro _ _ never
      exact never
    · rintro child ⟨below, held, solid⟩
      rw [ends _ held (.inr solid)] at below
      cases below

theorem pluggedEnd_empty : ({} : Arena).PluggedEnd := by
  intro owner block found
  cases found

theorem shadowsEnd_empty : ({} : Arena).ShadowsEnd := by
  intro owner block found
  cases found

end Arena

namespace Session

/-- As long as nothing is stacked below a value, solid values have nothing below them, and neither
have shadows that had nothing there to begin with. -/
theorem values_of_requests (session : Session)
    (linked : ∀ target ∈ session.project.targets, target.blocks.WellLinked)
    (ends : ∀ target ∈ session.project.targets, target.blocks.PluggedEnd)
    (requests : List Request) (permits : session.PermitsAll Arena.SparesValues requests) :
    let reached := (session.executeAll requests).2
    (∀ target ∈ reached.project.targets, ∀ owner block, target.blocks.get? owner = some block →
      ∀ input ∈ block.inputs, ∀ id, input.block = some id → target.blocks.IsSolid id →
        target.blocks.below? id = none) ∧
      ((∀ target ∈ session.project.targets, target.blocks.ShadowsEnd) →
        ∀ target ∈ reached.project.targets, target.blocks.PluggedEnd ∧ target.blocks.ShadowsEnd) := by
  constructor
  · have solid : ∀ target ∈ session.project.targets, target.blocks.ValuesEnd False :=
      fun target member => (linked target member).valuesEnd_of_plugged (ends target member)
    have kept := executeAll_keeps (Arena.positional_valuesEnd False).lasting linked solid permits
    intro target member owner block found input listed id plugged isSolid
    exact kept target member id ⟨owner, block, found, input, listed, .inl plugged⟩ (.inr isSolid)
  · intro shadowsEnd
    have all : ∀ target ∈ session.project.targets, target.blocks.ValuesEnd True :=
      fun target member => Arena.valuesEnd_true_iff.mpr ⟨ends target member, shadowsEnd target member⟩
    have kept := executeAll_keeps (Arena.positional_valuesEnd True).lasting linked all permits
    exact fun target member => Arena.valuesEnd_true_iff.mp (kept target member)

/-- A sum is plugged into a block, and another block is there to be stacked. -/
def pluggingSum : List Request :=
  [adding "operator_add", adding "motion_movesteps",
    connecting "block_1" "block_4" (.valueInto "STEPS"), adding "looks_show"]

def stackingBelow (id : String) : List Request :=
  pluggingSum ++ [connecting "block_6" id .stackAfter]

/-- The block is stacked below the one that the sum is plugged into. -/
theorem values_of_requests_stacking :
    (∀ target ∈ oneSprite.project.targets, target.blocks.WellLinked) ∧
      (∀ target ∈ oneSprite.project.targets, target.blocks.PluggedEnd) ∧
      (∀ target ∈ oneSprite.project.targets, target.blocks.ShadowsEnd) ∧
      oneSprite.PermitsAll Arena.SparesValues (stackingBelow "block_4") ∧
      ((oneSprite.executeAll (stackingBelow "block_4")).2.project.targets.map fun target =>
        (target.blocks.parent? "block_1", target.blocks.below? "block_4")) =
          [(some "block_4", some "block_6")] ∧
      ∀ target ∈ (oneSprite.executeAll (stackingBelow "block_4")).2.project.targets,
        target.blocks.PluggedEnd := by
  have linked := oneSprite_every Arena.wellLinked_empty
  have pluggedEnd := oneSprite_every Arena.pluggedEnd_empty
  have shadowsEnd := oneSprite_every Arena.shadowsEnd_empty
  have last : (oneSprite.executeAll pluggingSum).2.Permits Arena.SparesValues
      (connecting "block_6" "block_4" .stackAfter) := by
    intro _ index editing source target placement required connects
    have member := List.mem_of_getElem? (Project.requireEditing_eq_ok required).2
    have editingLinked := executeAll_wellLinked linked pluggingSum editing member
    have free : ∀ target ∈ (oneSprite.executeAll pluggingSum).2.project.targets,
        target.blocks.parent? "block_4" = none := by decide +kernel
    cases connects
    exact (editingLinked.parent?_eq_none_iff.mp (free editing member)).1
  have permits : oneSprite.PermitsAll Arena.SparesValues (stackingBelow "block_4") := by
    refine ⟨permits_adding _ _, permits_adding _ _, ?_, permits_adding _ _, last, trivial⟩
    intro _ index editing source target placement _ connects
    cases connects
    trivial
  have reached := values_of_requests oneSprite linked pluggedEnd (stackingBelow "block_4") permits
  exact ⟨linked, pluggedEnd, shadowsEnd, permits, by decide +kernel,
    fun target member => (reached.2 shadowsEnd target member).1⟩

/-- The block is stacked below the sum, which stays plugged in. -/
theorem stacked_value_not_last :
    (∀ target ∈ oneSprite.project.targets, target.blocks.WellLinked ∧ target.blocks.PluggedEnd) ∧
      ∃ target ∈ (oneSprite.executeAll (stackingBelow "block_1")).2.project.targets,
        target.blocks.below? "block_1" = some "block_6" ∧ ¬target.blocks.PluggedEnd := by
  have stacked : (some (some "block_1"), some "block_6") ∈
      (oneSprite.executeAll (stackingBelow "block_1")).2.project.targets.map fun target =>
        ((target.blocks.get? "block_4").map fun owner => owner.plugged? "STEPS",
          target.blocks.below? "block_1") := by
    decide +kernel
  obtain ⟨target, member, mapped⟩ := List.mem_map.mp stacked
  obtain ⟨holds, below⟩ := Prod.mk.inj mapped
  obtain ⟨owner, found, isPlugged⟩ := Option.map_eq_some_iff.mp holds
  obtain ⟨input, named, plugged⟩ := Option.bind_eq_some_iff.mp isPlugged
  refine ⟨fun target member => ⟨oneSprite_every Arena.wellLinked_empty target member,
    oneSprite_every Arena.pluggedEnd_empty target member⟩, target, member, below, fun ends => ?_⟩
  have last := ends "block_4" owner found input (List.mem_of_find?_eq_some named) "block_1" plugged
  rw [below] at last
  cases last

end Session

end BlockGraph
