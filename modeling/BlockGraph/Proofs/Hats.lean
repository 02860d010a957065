import BlockGraph.Proofs.Places
import BlockGraph.Proofs.WellLinked.Sessions

/-!
Hats start scripts. No request puts a hat below another block or at the head of a branch. Nothing
keeps a hat from being plugged into an input, and that is the only way for it to lose the top of its
script.
-/

set_option autoImplicit false

namespace BlockGraph

namespace Arena

variable {arena next : Arena} {values : Prop}

/-- Hats are at the top of their scripts. -/
def HatsOnTop (arena : Arena) : Prop :=
  ∀ id block, arena.get? id = some block → Catalog.isHat block.opcode = true →
    block.topLevel = true ∧ block.parent = none

/-- No hat is chained to another block. Where values count, none is in an input either. -/
def HatsFree (values : Prop) (arena : Arena) : Prop :=
  ∀ id, arena.IsHat id → ¬arena.Chained id ∧ (values → ¬arena.Held id)

/-- The block that is connected is not a hat that becomes a value. -/
def SparesHats (arena : Arena) (source _target : String) : Placement → Prop
  | .valueInto _ => ¬arena.IsHat source
  | .stackAfter | .statementInto _ => True

theorem WellLinked.hatsOnTop_iff (linked : arena.WellLinked) :
    arena.HatsOnTop ↔ arena.HatsFree True := by
  constructor
  · rintro onTop id ⟨block, found, isHat⟩
    have free : arena.parent? id = none := by
      rw [parent?_of_get? found]
      exact (onTop id block found isHat).2
    obtain ⟨unheld, unchained⟩ := linked.parent?_eq_none_iff.mp free
    exact ⟨unchained, fun _ => unheld⟩
  · intro free id block found isHat
    obtain ⟨unchained, unheld⟩ := free id ⟨block, found, isHat⟩
    have top : block.parent = none := by
      rw [← parent?_of_get? found]
      exact linked.parent?_eq_none_iff.mpr ⟨unheld trivial, unchained⟩
    exact ⟨(linked.top_iff id block found).mpr top, top⟩

namespace HatsFree

theorem weaken (free : arena.HatsFree True) (values : Prop) : arena.HatsFree values := by
  intro id isHat
  exact ⟨(free id isHat).1, fun _ => (free id isHat).2 trivial⟩

theorem rearranged {held chained extended : String → Prop} (free : arena.HatsFree values)
    (moved : Rearranged held chained extended arena next)
    (solid : ∀ id, arena.IsHat id → values → ¬held id) (loose : ∀ id, arena.IsHat id → ¬chained id) :
    next.HatsFree values := by
  intro id isHat
  have wasHat := moved.isHat isHat
  obtain ⟨unchained, unheld⟩ := free id wasHat
  constructor
  · intro after
    exact (moved.chained id after).elim unchained (loose id wasHat)
  · intro count after
    exact (moved.held id after).elim (unheld count) (solid id wasHat count)

theorem sheds (free : arena.HatsFree values) (shed : Sheds arena next) : next.HatsFree values :=
  free.rearranged shed (fun _ _ _ => id) fun _ _ => id

end HatsFree

theorem positional_hatsFree (values : Prop) :
    Positional
      (fun arena source target placement => values → arena.SparesHats source target placement)
      (HatsFree values) where
  sheds := HatsFree.sheds
  shadowed free moved := by
    apply free.rearranged moved
    · rintro id ⟨block, found, -⟩ - fresh
      rw [found] at fresh
      cases fresh
    · intro _ _ never
      exact never
  placed := by
    rintro arena middle next spec id block shadows linked free listed placed other ⟨hat, found, isHat⟩
    rcases placed.get?_solid listed found (Catalog.solid_of_isHat isHat) with rfl | old
    · have unknown : ∀ block, arena.get? other ≠ some block := by simp [placed.fresh]
      refine ⟨fun after => ?_, fun _ after => ?_⟩
      · obtain ⟨block, lookup⟩ := linked.found_of_chained (placed.chained after)
        exact unknown block lookup
      · rcases placed.held after with before | isShadow
        · obtain ⟨block, lookup⟩ := linked.found_of_held before
          exact unknown block lookup
        · exact placed.apart isShadow
    · obtain ⟨unchained, unheld⟩ := free other ⟨hat, old, isHat⟩
      refine ⟨fun after => unchained (placed.chained after), fun count after => ?_⟩
      rcases placed.held after with before | isShadow
      · exact unheld count before
      · rw [placed.fresh_of_shadow isShadow] at old
        cases old
  attached := by
    intro arena middle next source target placement moved linked free spares found suits shed _ attached
    -- Only the check of a place in a chain looks for hats.
    have notHat (solid : Catalog.isHat moved.opcode = false) :
        ∀ id, middle.IsHat id → ¬id = source := by
      rintro id isHat rfl
      obtain ⟨block, lookup, hat⟩ := shed.isHat isHat
      obtain rfl := Option.some.inj (found.symm.trans lookup)
      rw [hat] at solid
      cases solid
    cases placement with
    | stackAfter => exact (free.sheds shed).rearranged attached (fun _ _ _ => id) (notHat suits)
    | statementInto input =>
      exact (free.sheds shed).rearranged attached (fun _ _ _ => id) (notHat suits)
    | valueInto input =>
      apply (free.sheds shed).rearranged attached
      · rintro id isHat count rfl
        exact spares count (shed.isHat isHat)
      · intro _ _ never
        exact never
  promoted free moved := by
    apply free.rearranged moved
    · rintro child isHat - ⟨below, -⟩
      exact (free child isHat).1 (.of_below? below)
    · intro _ _ never
      exact never

theorem hatsOnTop_empty : ({} : Arena).HatsOnTop := by
  intro id block found
  cases found

end Arena

namespace Session

/-- A hat is never chained to another block, and it stays at the top of its script, out of all slots,
unless it is plugged into an input. -/
theorem hats_of_requests (session : Session)
    (linked : ∀ target ∈ session.project.targets, target.blocks.WellLinked)
    (onTop : ∀ target ∈ session.project.targets, target.blocks.HatsOnTop)
    (requests : List Request) :
    let reached := (session.executeAll requests).2
    (∀ target ∈ reached.project.targets, ∀ id, target.blocks.IsHat id → ¬target.blocks.Chained id) ∧
      (session.PermitsAll Arena.SparesHats requests →
        ∀ target ∈ reached.project.targets, target.blocks.HatsOnTop ∧
          ∀ owner, ∀ id ∈ target.blocks.childrenAt owner, ¬target.blocks.IsHat id) := by
  intro reached
  have free (values : Prop) : ∀ target ∈ session.project.targets, target.blocks.HatsFree values := by
    intro target member
    exact ((linked target member).hatsOnTop_iff.mp (onTop target member)).weaken values
  constructor
  · have permits : session.PermitsAll (fun arena source target placement =>
        False → arena.SparesHats source target placement) requests :=
      (session.permitsAll_true requests).mono fun _ _ _ _ _ never => never.elim
    have kept := executeAll_keeps (Arena.positional_hatsFree False).lasting linked (free False) permits
    intro target member id isHat
    exact (kept target member id isHat).1
  · intro permits target member
    have kept := executeAll_keeps (Arena.positional_hatsFree True).lasting linked (free True)
      (permits.mono fun _ _ _ _ spares _ => spares) target member
    have reachedLinked := executeAll_wellLinked linked requests target member
    refine ⟨reachedLinked.hatsOnTop_iff.mpr kept, ?_⟩
    intro owner id owned isHat
    obtain ⟨unchained, unheld⟩ := kept id isHat
    have free := reachedLinked.parent?_eq_none_iff.mpr ⟨unheld trivial, unchained⟩
    rw [reachedLinked.forest.parent_of_mem owned] at free
    cases free

/-- A script of a hat and the block below it. -/
def stacking : List Request :=
  [adding "event_whenflagclicked", adding "looks_show", connecting "block_2" "block_1" .stackAfter]

theorem hats_of_requests_stacking :
    (∀ target ∈ oneSprite.project.targets, target.blocks.WellLinked) ∧
      (∀ target ∈ oneSprite.project.targets, target.blocks.HatsOnTop) ∧
      oneSprite.PermitsAll Arena.SparesHats stacking ∧
      ((oneSprite.executeAll stacking).2.project.targets.map fun target =>
        (target.blocks.get? "block_1").map fun hat => (Catalog.isHat hat.opcode, hat.next)) =
          [some (true, some "block_2")] ∧
      ∀ target ∈ (oneSprite.executeAll stacking).2.project.targets, target.blocks.HatsOnTop := by
  have permits : oneSprite.PermitsAll Arena.SparesHats stacking := by
    refine ⟨permits_adding _ _, permits_adding _ _, ?_, trivial⟩
    intro _ index editing source target placement _ connects
    cases connects
    trivial
  have linked := oneSprite_every Arena.wellLinked_empty
  have onTop := oneSprite_every Arena.hatsOnTop_empty
  have reached := hats_of_requests oneSprite linked onTop stacking
  exact ⟨linked, onTop, permits, by decide +kernel,
    fun target member => (reached.2 permits target member).1⟩

/-- A hat that is plugged into a block. -/
def pluggingHat : List Request :=
  [adding "event_whenflagclicked", adding "motion_movesteps",
    connecting "block_1" "block_2" (.valueInto "STEPS")]

theorem plugged_hat_not_on_top :
    (∀ target ∈ oneSprite.project.targets, target.blocks.WellLinked ∧ target.blocks.HatsOnTop) ∧
      ∃ target ∈ (oneSprite.executeAll pluggingHat).2.project.targets,
        target.blocks.parent? "block_1" = some "block_2" ∧ ¬target.blocks.HatsOnTop := by
  have plugged : some (true, some "block_2") ∈
      (oneSprite.executeAll pluggingHat).2.project.targets.map fun target =>
        (target.blocks.get? "block_1").map fun hat => (Catalog.isHat hat.opcode, hat.parent) := by
    decide +kernel
  obtain ⟨target, member, mapped⟩ := List.mem_map.mp plugged
  obtain ⟨hat, found, facts⟩ := Option.map_eq_some_iff.mp mapped
  obtain ⟨isHat, up⟩ := Prod.mk.inj facts
  refine ⟨fun target member => ⟨oneSprite_every Arena.wellLinked_empty target member,
    oneSprite_every Arena.hatsOnTop_empty target member⟩, target, member, ?_, fun onTop => ?_⟩
  · rw [Arena.parent?_of_get? found, up]
  · have free := (onTop "block_1" hat found isHat).2
    rw [up] at free
    cases free

end Session

end BlockGraph
