import BlockGraph.Proofs.Splicing
import BlockGraph.Proofs.WellLinked.Sessions

/-!
Boolean inputs hold no shadows. A field write refuses to make one there, a new block comes without,
and moving and deleting put no shadow into an input that did not hold it before.
-/

set_option autoImplicit false

namespace BlockGraph

open Revision

/-- A boolean input of the block has the other one plugged in or as its shadow. -/
def Block.HoldsBoolean (block : Block) (id : String) : Prop :=
  ∃ input ∈ block.inputs, Catalog.isBooleanInput block.opcode input.name = true ∧
    id ∈ input.childIds

theorem Block.HoldsBoolean.holds {block : Block} {id : String} (holds : block.HoldsBoolean id) :
    block.Holds id := by
  obtain ⟨input, member, -, held⟩ := holds
  exact ⟨input, member, Input.mem_childIds_iff.mp held⟩

theorem Block.Spliced.holdsBoolean {given : String → Prop} {block changed : Block} {id : String}
    (spliced : block.Spliced given changed) (holds : changed.HoldsBoolean id) :
    given id ∨ block.HoldsBoolean id := by
  obtain ⟨input, member, boolean, held⟩ := holds
  rcases spliced.inputs input member id held with isGiven | ⟨old, inside, named, had⟩
  · exact .inl isGiven
  · rw [spliced.opcode, ← named] at boolean
    exact .inr ⟨old, inside, boolean, had⟩

/-- A shadow that is plugged in is all that is new in the inputs. -/
theorem Block.holdsBoolean_of_plugShadow {block : Block} {name shadow id : String}
    (holds : (block.withInput name
      ({ · with block := some shadow, shadow := some shadow })).HoldsBoolean id) :
    block.HoldsBoolean id ∨ id = shadow ∧ Catalog.isBooleanInput block.opcode name = true := by
  obtain ⟨input, member, boolean, held⟩ := holds
  rw [opcode_of_frame (block.frame_withInput name _)] at boolean
  rcases mem_withInput member with old | rfl
  · exact .inl ⟨input, old, boolean, held⟩
  · have isShadow : id = shadow := by simpa [Input.childIds] using held
    have named : ((block.input? name).getD (Input.empty name)).name = name := by
      cases slot : block.input? name with
      | none => rfl
      | some input => simpa using List.find?_some slot
    exact .inr ⟨isShadow, named ▸ boolean⟩

theorem Block.holdsBoolean_of_shadow {block : Block} {name id : String}
    (own : ((block.input? name).getD (Input.empty name)).shadow = some id)
    (boolean : Catalog.isBooleanInput block.opcode name = true) : block.HoldsBoolean id := by
  cases slot : block.input? name with
  | none => simp [slot, Input.empty] at own
  | some input =>
    have named : input.name = name := by simpa using List.find?_some slot
    rw [slot, Option.getD_some] at own
    exact ⟨input, List.mem_of_find?_eq_some slot, named ▸ boolean,
      Input.mem_childIds_iff.mpr (.inr own)⟩

namespace Arena

variable {arena next : Arena} {id : String}

/-- No shadow is plugged into a boolean input, and none belongs to it. -/
def BooleansClear (arena : Arena) : Prop :=
  ∀ owner block, arena.get? owner = some block → ∀ input ∈ block.inputs,
    Catalog.isBooleanInput block.opcode input.name = true →
    ∀ id, input.block = some id ∨ input.shadow = some id → ¬arena.IsShadow id

/-- The block stands in a boolean input. -/
def BooleanHeld (arena : Arena) (id : String) : Prop :=
  ∃ owner block, arena.get? owner = some block ∧ block.HoldsBoolean id

theorem booleansClear_iff :
    arena.BooleansClear ↔ ∀ id, arena.BooleanHeld id → ¬arena.IsShadow id := by
  constructor
  · rintro clear id ⟨owner, block, found, input, member, boolean, held⟩
    exact clear owner block found input member boolean id (Input.mem_childIds_iff.mp held)
  · intro clear owner block found input member boolean id held
    exact clear id ⟨owner, block, found, input, member, boolean, Input.mem_childIds_iff.mpr held⟩

theorem booleansClear_empty : ({} : Arena).BooleansClear := by
  intro owner block found
  cases found

/-- Blocks that are spliced in are no shadows. -/
theorem BooleansClear.spliced {given : String → Prop} (clear : arena.BooleansClear)
    (spliced : Spliced given arena next) (solid : ∀ id, given id → ¬arena.IsShadow id) :
    next.BooleansClear := by
  rw [booleansClear_iff] at clear ⊢
  rintro id ⟨owner, changed, found, holds⟩ isShadow
  obtain ⟨block, stood, same⟩ := spliced owner changed found
  rcases same.holdsBoolean holds with isGiven | held
  · exact solid id isGiven (spliced.isShadow isShadow)
  · exact clear id ⟨owner, block, stood, held⟩ (spliced.isShadow isShadow)

/-- A change that leaves types and inputs alone. -/
theorem BooleansClear.modifyFrame (clear : arena.BooleansClear) {change : Block → Block}
    (types : ∀ block, (change block).opcode = block.opcode)
    (slots : ∀ block, (change block).inputs = block.inputs) :
    (arena.modifyBlock id change).BooleansClear := by
  intro owner changed found input member boolean child held
  rw [isShadow_modifyBlock fun block _ => types block]
  rw [get?_modifyBlock] at found
  split at found
  · obtain ⟨block, stood, rfl⟩ := Option.map_eq_some_iff.mp found
    rw [slots] at member
    rw [types] at boolean
    exact clear owner block stood input member boolean child held
  · exact clear owner changed found input member boolean child held

/-- Where new shadows appear, no boolean input takes them. -/
theorem BooleansClear.grown (linked : arena.WellLinked) (clear : arena.BooleansClear)
    (held : ∀ id, next.BooleanHeld id → arena.BooleanHeld id)
    (kinds : ∀ id block, arena.get? id = some block → next.IsShadow id → arena.IsShadow id) :
    next.BooleansClear := by
  rw [booleansClear_iff] at clear ⊢
  intro id isHeld isShadow
  obtain ⟨owner, block, found, holds⟩ := held id isHeld
  obtain ⟨stored, lookup⟩ := linked.found_of_held ⟨owner, block, found, holds.holds⟩
  exact clear id ⟨owner, block, found, holds⟩ (kinds id stored lookup isShadow)

end Arena

open Arena

theorem FieldWrite.Readied.booleansClear {arena next : Arena} (readied : Readied arena next)
    (linked : arena.WellLinked) (clear : arena.BooleansClear) : next.BooleansClear := by
  cases readied with
  | kept same =>
    exact clear.spliced ((Spliced.refl arena).of_get? (get?_of_uncounted same)) fun _ => False.elim
  | @plugged owner name shadow block leaf found apart empty kind origin lookups scripts =>
    apply clear.grown linked
    · rintro id ⟨holder, stored, lookup, holds⟩
      rw [lookups] at lookup
      split at lookup
      · rename_i isOwner
        subst isOwner
        obtain rfl := Option.some.inj lookup
        rcases Block.holdsBoolean_of_plugShadow holds with old | ⟨rfl, boolean⟩
        · exact ⟨holder, block, found, old⟩
        · -- A boolean input is not given a new shadow, so this one belonged to it.
          rcases origin with ⟨-, own⟩ | ⟨-, -, notBoolean⟩
          · exact ⟨holder, block, found, Block.holdsBoolean_of_shadow own boolean⟩
          · rw [notBoolean] at boolean
            cases boolean
      · split at lookup
        · rename_i isShadow
          obtain rfl := Option.some.inj lookup
          rcases origin with ⟨old, -⟩ | ⟨-, childless, -⟩
          · exact ⟨holder, leaf, isShadow ▸ old, holds⟩
          · exact absurd holds.holds (Block.not_owns childless id).1
        · exact ⟨holder, stored, lookup, holds⟩
    · rintro id old stood ⟨stored, lookup, isShadow⟩
      rw [lookups] at lookup
      split at lookup
      · rename_i isOwner
        obtain rfl := Option.some.inj lookup
        rw [Block.opcode_of_frame (block.frame_withInput name _)] at isShadow
        exact ⟨block, isOwner ▸ found, isShadow⟩
      · split at lookup
        · rename_i same
          rcases origin with ⟨old, -⟩ | ⟨fresh, -⟩
          · exact ⟨leaf, same ▸ old, kind⟩
          · rw [same, fresh] at stood
            cases stood
        · exact ⟨stored, lookup, isShadow⟩

theorem NewBlock.Placed.booleansClear {arena middle next : Arena} {spec : Catalog.BlockSpec}
    {id : String} {block : Block} {shadows : List (String × Block)}
    (placed : Placed arena spec id block shadows middle next) (listed : spec ∈ Catalog.specs)
    (linked : arena.WellLinked) (clear : arena.BooleansClear) : next.BooleansClear := by
  apply clear.grown linked
  · rintro other ⟨owner, stored, found, holds⟩
    rcases placed.get?_cases found with ⟨-, rfl⟩ | ⟨_, _, _, _, rfl, -⟩ | old
    · obtain ⟨input, member, boolean, held⟩ := holds
      have filled : input.block ≠ none := by
        intro empty
        have bare := (placed.templated.plugged input member).trans empty
        simp [Input.childIds, empty, bare] at held
      obtain ⟨declared, inside, named, shadowed⟩ := placed.templated.filled input member filled
      rw [placed.opcode, ← named, Catalog.specs_notBoolean spec listed declared inside shadowed]
        at boolean
      cases boolean
    · exact absurd holds.holds (Block.not_owns (Block.childIds_newShadow _ _ _ _) other).1
    · exact ⟨owner, stored, old, holds⟩
  · rintro other old stood ⟨stored, found, isShadow⟩
    have notNew : other ≠ id := (ne_of_fresh placed.fresh stood).symm
    have notShadow : other ∉ shadows.map Prod.fst := by
      intro isNew
      rw [placed.fresh_of_shadow isNew] at stood
      cases stood
    rw [placed.get?_other notNew notShadow] at found
    exact ⟨stored, found, isShadow⟩

namespace Arena

theorem lasting_booleansClear : Lasting (fun _ _ _ _ => True) BooleansClear where
  uncounted clear same :=
    clear.spliced ((Spliced.refl _).of_get? (get?_of_uncounted same)) fun _ => False.elim
  readied linked clear readied := readied.booleansClear linked clear
  write clear id name field := clear.modifyFrame (fun _ => rfl) fun _ => rfl
  placed linked clear listed placed := placed.booleansClear listed linked clear
  connected := by
    intro arena source target placement linked clear _
    apply (spliced_connect arena source target placement).mono
    · intro _ next spliced
      exact clear.spliced spliced fun _ isGiven => isGiven.2
    · intro _ _ _
      trivial
  detached := by
    intro arena id linked clear
    apply (splices_detach id arena (.refl arena)).mono
    · intro _ next spliced
      exact clear.spliced spliced fun _ => False.elim
    · intro _ _ _
      trivial
  deleted := by
    intro arena id linked clear
    apply (spliced_delete arena id).mono
    · intro _ next spliced
      apply clear.spliced spliced
      intro child below
      obtain ⟨block, found, down⟩ := Option.bind_eq_some_iff.mp below
      exact (linked.fitted id block found).next child down
    · intro _ _ _
      trivial

end Arena

namespace Session

/-- Whatever is written, plugged in, detached or deleted, boolean inputs hold no shadows. -/
theorem booleans_of_requests (session : Session)
    (linked : ∀ target ∈ session.project.targets, target.blocks.WellLinked)
    (clear : ∀ target ∈ session.project.targets, target.blocks.BooleansClear)
    (requests : List Request) :
    ∀ target ∈ (session.executeAll requests).2.project.targets, target.blocks.BooleansClear :=
  executeAll_keeps Arena.lasting_booleansClear linked clear (session.permitsAll_true requests)

/-- A literal is refused as a condition, and a comparison is taken. -/
def asking : List Request :=
  [adding "control_if",
    ⟨"set_block_field", .ofMembers
      [("blockId", .text "block_1"), ("fieldName", .text "CONDITION"), ("value", .text "true")]⟩,
    adding "operator_gt", connecting "block_3" "block_1" (.valueInto "CONDITION")]

theorem booleans_of_requests_asking :
    (∀ target ∈ oneSprite.project.targets, target.blocks.WellLinked) ∧
      (∀ target ∈ oneSprite.project.targets, target.blocks.BooleansClear) ∧
      ((oneSprite.executeAll asking).1.map fun answer => answer.get? "ok") =
        [some (.bool true), some (.bool false), some (.bool true), some (.bool true)] ∧
      ((oneSprite.executeAll asking).2.project.targets.map fun target =>
        (target.blocks.get? "block_1").map fun block =>
          (Catalog.isBooleanInput block.opcode "CONDITION", block.inputs)) =
        [some (true, [⟨"CONDITION", some "block_3", none⟩])] ∧
      ∀ target ∈ (oneSprite.executeAll asking).2.project.targets, target.blocks.BooleansClear := by
  have linked := oneSprite_every Arena.wellLinked_empty
  have clear := oneSprite_every Arena.booleansClear_empty
  exact ⟨linked, clear, by decide +kernel, by decide +kernel,
    booleans_of_requests oneSprite linked clear asking⟩

end Session

end BlockGraph
