import BlockGraph.Proofs.Dict
import BlockGraph.Proofs.Exchange

/-!
A connected block is grafted into its place. The blocks on the way down from a slot are a stretch; a
move puts the whole stretch of the moved block into one place on another block and hangs the stretch
that stood there below its last block. All other links are those that are left when the moved block
has been unplugged.
-/

set_option autoImplicit false

namespace BlockGraph

namespace Input

/-- An input is found under its name, changed or not. -/
theorem find?_modifyFirst_name {change : Input → Input}
    (keeps : ∀ input, (change input).name = input.name) (name other : String)
    (inputs : List Input) :
    (modifyFirst (fun input => input.name = name) change inputs).find?
        (fun input => input.name = other) =
      if other = name then (inputs.find? fun input => input.name = other).map change
      else inputs.find? fun input => input.name = other := by
  induction inputs with
  | nil => simp [modifyFirst]
  | cons head rest ih =>
    by_cases named : head.name = name
    · by_cases same : other = name
      · simp [modifyFirst, named, same, keeps]
      · simp [modifyFirst, named, same, keeps, Ne.symm same]
    · by_cases asked : head.name = other
      · have different : other ≠ name := fun same => named (asked.trans same)
        simp [modifyFirst, asked, different]
      · simp [modifyFirst, named, asked, ih]

end Input

namespace Block

variable {owner : Block} {source : String} {placement : Placement}

theorem input?_withInput {change : Input → Input}
    (keeps : ∀ input, (change input).name = input.name) (block : Block) (name other : String) :
    (block.withInput name change).input? other =
      if other = name then some (change ((block.input? name).getD (Input.empty name)))
      else block.input? other := by
  rcases block.withInput_eq name change with ⟨slot, found, same⟩ | ⟨missing, same⟩
  · rw [same, input?, Input.find?_modifyFirst_name keeps]
    split
    · rename_i hit
      rw [hit, show block.inputs.find? (fun input => input.name = name) = some slot from found, found]
      rfl
    · rfl
  · rw [same, input?, List.find?_append]
    split
    · rename_i hit
      rw [hit, show block.inputs.find? (fun input => input.name = name) = none from missing, missing]
      simp [keeps, Input.empty]
    · rename_i different
      have apart : name ≠ other := Ne.symm different
      simp [keeps, Input.empty, apart, input?]

theorem frame_put (owner : Block) (source : String) (placement : Placement) :
    (owner.put source placement).frame = owner.frame := by
  cases placement with
  | stackAfter => rfl
  | statementInto input =>
    rw [put]
    split <;> rfl
  | valueInto input => exact owner.frame_withInput input _

theorem next_put (owner : Block) (source : String) (placement : Placement) :
    (owner.put source placement).next =
      if placement = .stackAfter then some source else owner.next := by
  cases placement with
  | stackAfter => rfl
  | statementInto input =>
    rw [put]
    split <;> simp [setBranch]
  | valueInto input => simp [put, next_withInput]

theorem branch_put (owner : Block) (source : String) (placement : Placement) (branch : Branch) :
    (owner.put source placement).branch branch =
      if placement = .statementInto branch.name then some source else owner.branch branch := by
  cases placement with
  | stackAfter => simp [put, Block.branch]
  | statementInto input =>
    rw [put]
    split
    · rename_i named found
      have same : input = branch.name ↔ named = branch := by
        rw [eq_comm, ← Branch.ofName?_eq_some_iff, found, Option.some_inj]
      simp [Block.branch, setBranch, same]
    · rename_i missing
      have different : input ≠ branch.name := by
        rintro rfl
        rw [Branch.ofName?_eq_some_iff.mpr rfl] at missing
        cases missing
      simp [different]
  | valueInto input =>
    rcases owner.withInput_eq input (Input.plug source) with ⟨_, -, same⟩ | ⟨-, same⟩ <;>
      simp [put, same, Block.branch]

theorem input?_put (owner : Block) (source : String) (placement : Placement) (name : String) :
    (owner.put source placement).input? name =
      if placement = .valueInto name then
        some ⟨name, some source, ((owner.input? name).bind Input.shadow).or
          ((owner.input? name).bind Input.block)⟩
      else owner.input? name := by
  cases placement with
  | stackAfter => simp [put, input?]
  | statementInto input =>
    rw [put]
    split <;> simp [setBranch, input?]
  | valueInto input =>
    have keeps : ∀ slot, (Input.plug source slot).name = slot.name := fun _ => rfl
    rw [put, input?_withInput keeps]
    by_cases same : name = input
    · subst same
      cases found : owner.input? name with
      | none => simp [Input.plug, Input.empty]
      | some slot =>
        have named : slot.name = name := by simpa using List.find?_some found
        simp [Input.plug, named]
    · simp [same, Ne.symm same]

theorem names_put (owner : Block) (source : String) (placement : Placement) :
    owner.inputs.map Input.name <+: (owner.put source placement).inputs.map Input.name := by
  cases placement with
  | stackAfter => exact List.prefix_rfl
  | statementInto input =>
    rw [put]
    split <;> exact List.prefix_rfl
  | valueInto input =>
    rcases owner.withInput_eq input (Input.plug source) with ⟨_, -, same⟩ | ⟨-, same⟩
    · have names : (owner.put source (.valueInto input)).inputs.map Input.name =
          owner.inputs.map Input.name := by
        rw [put, same, Input.map_name_modifyFirst _ (Input.plug source) fun _ _ => rfl]
      exact names ▸ List.prefix_rfl
    · rw [put, same, List.map_append]
      exact List.prefix_append _ _

end Block

namespace Arena

open Forest Revision

variable {arena other next : Arena} {id : String} {head stop : Option String} {ids : List String}

/-- The blocks on the way down from what a slot holds, until the slot below them holds `stop`. -/
inductive Stretch (arena : Arena) : Option String → List String → Option String → Prop
  | nil (stop : Option String) : Stretch arena stop [] stop
  | cons {id : String} {block : Block} {ids : List String} {stop : Option String} :
      arena.get? id = some block → Stretch arena block.next ids stop →
      Stretch arena (some id) (id :: ids) stop

namespace Stretch

theorem append {others : List String} {middle : Option String}
    (upper : arena.Stretch head ids middle) (lower : arena.Stretch middle others stop) :
    arena.Stretch head (ids ++ others) stop := by
  induction upper with
  | nil middle => exact lower
  | cons found _ ih => exact .cons found (ih lower)

theorem unique {others : List String} (first : arena.Stretch head ids none)
    (second : arena.Stretch head others none) : ids = others := by
  induction ids generalizing head others with
  | nil =>
    cases first
    cases second
    rfl
  | cons id rest ih =>
    cases first with
    | cons found lower =>
      cases second with
      | cons lookup lower' =>
        obtain rfl := Option.some.inj (found.symm.trans lookup)
        rw [ih lower lower']

/-- The last block is the one with nothing below it. -/
theorem getLast?_eq_some_iff (stretch : arena.Stretch head ids none) :
    ids.getLast? = some id ↔ id ∈ ids ∧ arena.below? id = none := by
  induction ids generalizing head with
  | nil => simp
  | cons first rest ih =>
    cases stretch with
    | @cons _ block _ _ found lower =>
      cases rest with
      | nil =>
        cases lower_eq : block.next with
        | none =>
          simp only [List.getLast?_singleton, Option.some.injEq, List.mem_singleton]
          constructor
          · rintro rfl
            exact ⟨rfl, by rw [below?_of_get? found, lower_eq]⟩
          · rintro ⟨rfl, -⟩
            rfl
        | some below =>
          rw [lower_eq] at lower
          cases lower
      | cons second later =>
        rw [List.getLast?_cons_cons, ih lower, List.mem_cons (a := id) (b := first)]
        constructor
        · rintro ⟨member, last⟩
          exact ⟨.inr member, last⟩
        · rintro ⟨rfl | member, last⟩
          · rw [below?_of_get? found] at last
            rw [last] at lower
            cases lower
          · exact ⟨member, last⟩

/-- A stretch with another one hung below it, and its other links as they were. -/
theorem extend (stretch : arena.Stretch head ids none) (stop : Option String)
    (kept : ∀ id ∈ ids, (∃ block, other.get? id = some block) ∧
      other.below? id = (arena.below? id).or stop) : other.Stretch (head.or stop) ids stop := by
  induction ids generalizing head with
  | nil =>
    cases stretch
    exact .nil stop
  | cons id rest ih =>
    cases stretch with
    | cons found lower =>
      obtain ⟨⟨block, lookup⟩, below⟩ := kept id List.mem_cons_self
      rw [below?_of_get? lookup, below?_of_get? found] at below
      have later := ih lower fun id member => kept id (List.mem_cons_of_mem _ member)
      rw [← below] at later
      exact .cons lookup later

theorem congr (stretch : arena.Stretch head ids none)
    (kept : ∀ id ∈ ids, (∃ block, other.get? id = some block) ∧
      other.below? id = arena.below? id) : other.Stretch head ids none := by
  have same : other.Stretch (head.or none) ids none := by
    apply stretch.extend none
    intro id member
    rw [Option.or_none]
    exact kept id member
  rwa [Option.or_none] at same

theorem stored (stretch : arena.Stretch head ids stop) (member : id ∈ ids) :
    ∃ block, arena.get? id = some block := by
  induction stretch with
  | nil => cases member
  | @cons first block _ _ found _ ih =>
    rcases List.mem_cons.mp member with rfl | later
    · exact ⟨block, found⟩
    · exact ih later

theorem above {parent : String → Option String} {top : String}
    (down : ∀ id lower, arena.below? id = some lower → parent lower = some id)
    (stretch : arena.Stretch (some top) ids stop) (member : id ∈ ids) : Above parent top id := by
  induction ids generalizing top with
  | nil => cases member
  | cons first rest ih =>
    cases stretch with
    | @cons _ block _ _ found lower =>
      rcases List.mem_cons.mp member with rfl | later
      · exact .self
      · cases below : block.next with
        | none =>
          rw [below] at lower
          cases lower
          cases later
        | some second =>
          rw [below] at lower
          have up := down first second (by rw [below?_of_get? found, below])
          exact (Above.of_parent up).trans (ih lower later)

end Stretch

theorem stretch_of_tailFrom {seen : List String} {tail : String}
    (walked : arena.tailFrom id seen = .ok tail) :
    ∃ ids, arena.Stretch (some id) ids none ∧ ids.getLast? = some tail := by
  fun_induction arena.tailFrom id seen with
  | case1 => cases walked
  | case2 => cases walked
  | case3 id seen isNew block found last =>
    cases walked
    refine ⟨[_], .cons found ?_, rfl⟩
    rw [last]
    exact .nil none
  | case4 id seen isNew block found next below ih =>
    obtain ⟨ids, stretch, last⟩ := ih walked
    refine ⟨id :: ids, .cons found (below ▸ stretch), ?_⟩
    cases stretch
    exact last

theorem parent_of_below? {parent : String → Option String} (linked : Linked arena.childrenAt parent)
    (id lower : String) (below : arena.below? id = some lower) : parent lower = some id := by
  obtain ⟨block, found, next⟩ := Option.bind_eq_some_iff.mp below
  exact linked.parent_of_mem (mem_childrenAt found (Block.mem_childIds_of_next next))

/-- Where the links are trees, the way down from every block ends. -/
theorem exists_stretch (linked : Linked arena.childrenAt arena.parent?) (head : Option String)
    (stored : ∀ id, head = some id → ∃ block, arena.get? id = some block) :
    ∃ ids, arena.Stretch head ids none := by
  cases head with
  | none => exact ⟨[], .nil none⟩
  | some id =>
    obtain ⟨tail, -, walked, -⟩ := tailOf_of_rooted linked.rooted
      (fun owner id member => linked.parent_of_mem member) (stored id rfl)
    obtain ⟨ids, stretch, -⟩ := stretch_of_tailFrom walked
    exact ⟨ids, stretch⟩

/-- Head of a branch of a stored block. -/
def headOf? (arena : Arena) (id : String) (branch : Branch) : Option String :=
  (arena.get? id).bind (·.branch branch)

/-- A value input of a stored block. -/
def slot? (arena : Arena) (id name : String) : Option Input :=
  (arena.get? id).bind (·.input? name)

/-- Head of the sequence that stands in a place on a stored block. -/
def standing? (arena : Arena) (owner : String) (placement : Placement) : Option String :=
  (arena.get? owner).bind (·.displaced? placement)

/-- The second arena is the first one with the stretch `chain` of `source` in a place on `owner`, and
what stood there below the last block of `chain`. -/
structure Grafted (loose next : Arena) (source owner : String) (placement : Placement)
    (chain : List String) : Prop where
  ids : next.ids = loose.ids
  contents : ∀ id old new, loose.get? id = some old → next.get? id = some new →
    new.opcode = old.opcode ∧ new.fields = old.fields ∧ new.mutation = old.mutation
  parents : ∀ id, next.parent? id =
    if id = source then some owner
    else if loose.standing? owner placement = some id then chain.getLast? else loose.parent? id
  below : ∀ id, next.below? id =
    if placement = .stackAfter ∧ id = owner then some source
    else if chain.getLast? = some id then loose.standing? owner placement else loose.below? id
  heads : ∀ id branch, next.headOf? id branch =
    if placement = .statementInto branch.name ∧ id = owner then some source
    else loose.headOf? id branch
  /-- An input that takes the moved block keeps its shadow, or else what it showed. -/
  slots : ∀ id name, next.slot? id name =
    if placement = .valueInto name ∧ id = owner then
      some ⟨name, some source, ((loose.slot? id name).bind Input.shadow).or
        ((loose.slot? id name).bind Input.block)⟩
    else loose.slot? id name
  /-- Inputs keep their order, and a new one comes last. -/
  order : ∀ id old new, loose.get? id = some old → next.get? id = some new →
    old.inputs.map Input.name <+: new.inputs.map Input.name
  /-- The moved block is no script, and all others stay where they are on the workspace. -/
  places : ∀ id old new, loose.get? id = some old → next.get? id = some new →
    (new.topLevel, new.x, new.y) =
      if id = source then (false, none, none) else (old.topLevel, old.x, old.y)
  scripts : next.scripts = withoutScript loose.scripts source
  counter : next.counter = loose.counter

/-- What can be read off a place once the stretch `chain` has been put on top of the stretch `rest`
there. An input keeps the shadow it had, or else what it showed, which is a shadow too. -/
def ReadsOff (loose next : Arena) (source owner : String) (chain rest : List String) :
    Placement → Prop
  | .stackAfter => next.Stretch (some owner) (owner :: chain ++ rest) none
  | .statementInto name => ∃ branch, branch.name = name ∧
      next.Stretch (next.headOf? owner branch) (chain ++ rest) none
  | .valueInto name => ∃ shadow, next.slot? owner name = some ⟨name, some source, shadow⟩ ∧
      shadow = ((loose.slot? owner name).bind Input.shadow).or
        ((loose.slot? owner name).bind Input.block) ∧
      ∀ id, shadow = some id → loose.IsShadow id

section

variable {loose : Arena} {source target tail : String} {owner changed : Block}
  {displaced : Option String} {placement : Placement}

theorem get?_hung (hanging : arena.Hanging source target owner changed displaced) (id : String) :
    (arena.hung source target changed).get? id = (arena.get? id).map fun block =>
      { (if id = target then changed else block) with
        parent := if id = source then some target else block.parent } := by
  have apart : target ≠ source := by
    rintro rfl
    exact hanging.outside .self
  rw [hung, get?_modifyBlock, get?_modifyBlock]
  by_cases isTarget : id = target
  · subst isTarget
    simp [apart, hanging.found, ← Block.parent_of_frame hanging.frame]
  · by_cases isSource : id = source
    · simp [isSource, Ne.symm apart]
    · simp [isTarget, isSource]

theorem get?_settled (hanging : arena.Hanging source target owner changed displaced)
    (isTail : Hanging.Tail arena source target changed tail) (id : String) :
    (arena.settled source target changed tail displaced).get? id =
      (arena.get? id).map fun block =>
        { (if id = target then changed else block) with
          next := if id = tail then displaced else (if id = target then changed else block).next
          parent := if displaced = some id then some tail
            else if id = source then some target else block.parent } := by
  cases displaced with
  | none =>
    obtain ⟨last, found, ended⟩ := isTail.last
    rw [settled, get?_hung hanging]
    rw [get?_hung hanging] at found
    cases lookup : arena.get? id with
    | none => rfl
    | some block =>
      by_cases isTail : id = tail
      · subst isTail
        rw [lookup, Option.map_some, Option.some.injEq] at found
        have free : (if id = target then changed else block).next = none := by
          rw [← ended, ← found]
        simp [free]
      · simp [isTail]
  | some displaced =>
    rw [settled, get?_modifyBlock, get?_modifyBlock, get?_hung hanging]
    cases arena.get? id with
    | none => simp
    | some block =>
      by_cases isDisplaced : displaced = id
      · subst isDisplaced
        by_cases isTail : displaced = tail <;> simp [isTail]
      · by_cases isTail : id = tail
        · subst isTail
          simp [isDisplaced, Ne.symm isDisplaced]
        · simp [isDisplaced, Ne.symm isDisplaced, isTail]

/-- What a move makes of a block of the arena in which the moved block has no place. -/
def settledBlock (source target tail : String) (placement : Placement) (displaced : Option String)
    (id : String) (block : Block) : Block :=
  { (if id = target then block.put source placement else block) with
    next := if id = tail then displaced
      else if placement = .stackAfter ∧ id = target then some source else block.next
    parent := if displaced = some id then some tail
      else if id = source then some target else block.parent
    topLevel := if id = source then false else block.topLevel
    x := if id = source then none else block.x
    y := if id = source then none else block.y }

namespace Settling

theorem target_ne_source (settling : loose.Settling source target tail placement owner) :
    target ≠ source := by
  rintro rfl
  exact settling.hanging.outside .self

theorem tail_ne_target (settling : loose.Settling source target tail placement owner) : tail ≠ target := by
  rintro rfl
  exact settling.hanging.outside settling.isTail.below

theorem get?_settled (settling : loose.Settling source target tail placement owner) (id : String) :
    ((loose.setTopLevel source false).settled source target (owner.put source placement) tail
      (owner.displaced? placement)).get? id =
      (loose.get? id).map
        (settledBlock source target tail placement (owner.displaced? placement) id) := by
  have apart := settling.target_ne_source
  rw [Arena.get?_settled settling.hanging settling.isTail, get?_setTopLevel]
  by_cases isTarget : id = target
  · subst isTarget
    have frame := owner.frame_put source placement
    have tailApart := Ne.symm settling.tail_ne_target
    simp [settledBlock, apart, tailApart, settling.found, Block.next_put,
      (Block.place_of_frame frame).1, (Block.place_of_frame frame).2, Block.topLevel_of_frame frame]
  · by_cases isSource : id = source
    · subst isSource
      cases loose.get? id <;> simp [settledBlock, isTarget]
    · cases loose.get? id <;> simp [settledBlock, isTarget, isSource]

theorem forest (settling : loose.Settling source target tail placement owner) :
    Linked loose.childrenAt loose.parent? := by
  have linked := settling.hanging.afloat.forest
  rwa [parent?_setTopLevel_false, childrenAt_setTopLevel] at linked

theorem free (settling : loose.Settling source target tail placement owner) :
    loose.parent? source = none :=
  loose.parent?_setTopLevel_false source ▸ settling.hanging.afloat.free

theorem above_tail (settling : loose.Settling source target tail placement owner) :
    Above loose.parent? source tail :=
  loose.parent?_setTopLevel_false source ▸ settling.isTail.below

theorem outside (settling : loose.Settling source target tail placement owner) :
    ¬Above loose.parent? source target :=
  loose.parent?_setTopLevel_false source ▸ settling.hanging.outside

theorem standing?_eq (settling : loose.Settling source target tail placement owner) :
    loose.standing? target placement = owner.displaced? placement := by
  rw [standing?, settling.found, Option.bind_some]

theorem parent_displaced (settling : loose.Settling source target tail placement owner)
    {head : String} (displaced : owner.displaced? placement = some head) :
    loose.parent? head = some target := by
  obtain ⟨kept, before, -⟩ := settling.hanging.swaps
  apply settling.forest.parent_of_mem
  rw [childrenAt_of_get? settling.found, before.mem_iff, displaced]
  simp

/-- What a move touches is stored. -/
theorem stored (settling : loose.Settling source target tail placement owner) {id : String}
    (touched : id = source ∨ id = target ∨ id = tail ∨ owner.displaced? placement = some id) :
    ∃ block, loose.get? id = some block := by
  rcases touched with rfl | rfl | rfl | displaced
  · exact (exists_get?_modifyBlock loose id _ id).mp settling.hanging.afloat.found
  · exact ⟨owner, settling.found⟩
  · obtain ⟨block, found, -⟩ := settling.isTail.last
    have present := (exists_get?_hung _ source target _ id).mp ⟨block, found⟩
    exact (exists_get?_modifyBlock loose source _ id).mp present
  · obtain ⟨block, found, -⟩ := exists_of_parent? (settling.parent_displaced displaced)
    exact ⟨block, found⟩

theorem grafted (settling : loose.Settling source target tail placement owner)
    {chain : List String} (last : chain.getLast? = some tail) :
    loose.Grafted ((loose.setTopLevel source false).settled source target
      (owner.put source placement) tail (owner.displaced? placement)) source target placement
      chain := by
  have lookup := settling.get?_settled
  have changed : ∀ {id old new}, loose.get? id = some old →
      ((loose.setTopLevel source false).settled source target (owner.put source placement) tail
        (owner.displaced? placement)).get? id = some new →
      new = settledBlock source target tail placement (owner.displaced? placement) id old := by
    intro id old new found stored
    rw [lookup, found, Option.map_some, Option.some.injEq] at stored
    exact stored.symm
  have untouched : ∀ {id}, loose.get? id = none → id ≠ source ∧ id ≠ target ∧ tail ≠ id ∧
      owner.displaced? placement ≠ some id := by
    intro id missing
    have absent := fun touched => Option.ne_none_iff_exists'.mpr (settling.stored touched) missing
    simpa [eq_comm, not_or] using absent
  refine { ids := ?ids, contents := ?contents, parents := ?parents, below := ?below,
           heads := ?heads, slots := ?slots, order := ?order, places := ?places,
           scripts := ?scripts, counter := ?counter }
  case ids =>
    refine Dict.keys_eq_of_isSome fun id => ?_
    have isSome := congrArg Option.isSome (lookup id)
    rwa [Option.isSome_map] at isSome
  case contents =>
    intro id old new found stored
    rw [changed found stored]
    have frame := old.frame_put source placement
    by_cases isTarget : id = target
    · simp [settledBlock, isTarget, Block.opcode_of_frame frame, Block.fields_of_frame frame,
        Block.mutation_of_frame frame]
    · simp [settledBlock, isTarget]
  case parents =>
    intro id
    have apart : owner.displaced? placement ≠ some source := by
      intro same
      have up := settling.parent_displaced same
      rw [settling.free] at up
      cases up
    rw [parent?, parent?, lookup, settling.standing?_eq, last]
    cases found : loose.get? id with
    | none =>
      obtain ⟨notSource, -, -, notDisplaced⟩ := untouched found
      simp [notSource, notDisplaced]
    | some block =>
      by_cases isSource : id = source
      · simp [settledBlock, isSource, apart]
      · simp [settledBlock, isSource]
  case below =>
    intro id
    rw [below?, below?, lookup, settling.standing?_eq, last]
    cases found : loose.get? id with
    | none =>
      obtain ⟨-, notTarget, notTail, -⟩ := untouched found
      simp [notTarget, notTail]
    | some block =>
      by_cases isTail : tail = id
      · subst isTail
        simp [settledBlock, settling.tail_ne_target]
      · simp [settledBlock, isTail, Ne.symm isTail]
  case heads =>
    intro id branch
    rw [headOf?, headOf?, lookup]
    cases found : loose.get? id with
    | none =>
      obtain ⟨-, notTarget, -, -⟩ := untouched found
      simp [notTarget]
    | some block =>
      by_cases isTarget : id = target
      · subst isTarget
        have branches := block.branch_put source placement branch
        simpa [settledBlock, Block.branch] using branches
      · simp [settledBlock, isTarget, Block.branch]
  case slots =>
    intro id name
    rw [slot?, slot?, lookup]
    cases found : loose.get? id with
    | none =>
      obtain ⟨-, notTarget, -, -⟩ := untouched found
      simp [notTarget]
    | some block =>
      by_cases isTarget : id = target
      · subst isTarget
        have inputs := block.input?_put source placement name
        simpa [settledBlock, Block.input?] using inputs
      · simp [settledBlock, isTarget, Block.input?]
  case order =>
    intro id old new found stored
    rw [changed found stored]
    by_cases isTarget : id = target
    · simpa [settledBlock, isTarget] using old.names_put source placement
    · simp [settledBlock, isTarget]
  case places =>
    intro id old new found stored
    rw [changed found stored]
    by_cases isSource : id = source <;> simp [settledBlock, isSource]
  case scripts =>
    cases owner.displaced? placement <;> rfl
  case counter =>
    cases owner.displaced? placement <;> rfl

/-- The tail is the last block of the moved stretch. -/
theorem getLast?_eq (settling : loose.Settling source target tail placement owner)
    {chain : List String} (upper : loose.Stretch (some source) chain none) :
    chain.getLast? = some tail := by
  obtain ⟨ids, walked, last⟩ := stretch_of_tailFrom settling.isTail.walked
  have same : ((loose.setTopLevel source false).hung source target
      (owner.put source placement)).Stretch (some source) chain none := by
    apply upper.congr
    intro id member
    obtain ⟨block, found⟩ := upper.stored member
    have notTarget : id ≠ target := by
      rintro rfl
      exact settling.outside (upper.above (parent_of_below? settling.forest) member)
    refine ⟨?_, ?_⟩
    · rw [exists_get?_hung]
      exact (exists_get?_modifyBlock loose source _ id).mpr ⟨block, found⟩
    · rw [below?, get?_hung settling.hanging, get?_setTopLevel, below?_of_get? found, found]
      by_cases isSource : id = source
      · simp [isSource, Ne.symm settling.target_ne_source]
      · simp [isSource, notTarget]
  rw [same.unique walked, last]

/-- The displaced stretch comes right below the moved one. -/
theorem stretch_append (settling : loose.Settling source target tail placement owner)
    {chain rest : List String} (grafted : loose.Grafted next source target placement chain)
    (last : chain.getLast? = some tail) (upper : loose.Stretch (some source) chain none)
    (lower : loose.Stretch (owner.displaced? placement) rest none) :
    next.Stretch (some source) (chain ++ rest) none := by
  have down := parent_of_below? settling.forest
  have stored : ∀ {id}, (∃ block, loose.get? id = some block) → ∃ block, next.get? id = some block := by
    intro id present
    rwa [← mem_ids_iff, grafted.ids, mem_ids_iff]
  have links := grafted.below
  rw [settling.standing?_eq, last] at links
  have upperNext : next.Stretch (some source) chain (owner.displaced? placement) := by
    have extended : next.Stretch ((some source).or (owner.displaced? placement)) chain
        (owner.displaced? placement) := by
      apply upper.extend
      intro id member
      have above := upper.above down member
      have notTarget : id ≠ target := by
        rintro rfl
        exact settling.outside above
      refine ⟨stored (upper.stored member), ?_⟩
      rw [links, if_neg fun both => notTarget both.2]
      by_cases isTail : tail = id
      · subst isTail
        have ended := (upper.getLast?_eq_some_iff.mp last).2
        simp [ended]
      · have goesOn : loose.below? id ≠ none := by
          intro ended
          have same := upper.getLast?_eq_some_iff.mpr ⟨member, ended⟩
          exact isTail (Option.some.inj (last.symm.trans same))
        obtain ⟨below, found⟩ := Option.ne_none_iff_exists'.mp goesOn
        simp [isTail, found]
    simpa using extended
  have lowerNext : next.Stretch (owner.displaced? placement) rest none := by
    apply lower.congr
    intro id member
    refine ⟨stored (lower.stored member), ?_⟩
    -- Nothing of the displaced stretch is above the place or below the moved block.
    cases displaced : owner.displaced? placement with
    | none =>
      rw [displaced] at lower
      cases lower
      cases member
    | some head =>
      rw [displaced] at lower
      have up := settling.parent_displaced displaced
      have above := lower.above down member
      have notTarget : id ≠ target := by
        rintro rfl
        exact (settling.forest.rooted head).not_above_parent up above
      have notTail : tail ≠ id := by
        rintro rfl
        have higher := Above.of_root settling.free settling.above_tail above
        cases higher with
        | self =>
          rw [settling.free] at up
          cases up
        | step link rest =>
          rw [up] at link
          exact settling.outside (Option.some.inj link ▸ rest)
      rw [links, if_neg fun both => notTarget both.2, if_neg fun same => notTail (Option.some.inj same)]
  exact upperNext.append lowerNext

theorem readsOff (settling : loose.Settling source target tail placement owner)
    {chain rest : List String} (grafted : loose.Grafted next source target placement chain)
    (last : chain.getLast? = some tail) (upper : loose.Stretch (some source) chain none)
    (lower : loose.Stretch (owner.displaced? placement) rest none) :
    loose.ReadsOff next source target chain rest placement := by
  have joined := settling.stretch_append grafted last upper lower
  cases placement with
  | stackAfter =>
    have found : target ∈ next.ids := by
      rw [grafted.ids]
      exact mem_ids_of_get? settling.found
    obtain ⟨block, stored⟩ := mem_ids_iff.mp found
    have below := grafted.below target
    rw [if_pos ⟨rfl, rfl⟩, below?_of_get? stored] at below
    exact .cons stored (below ▸ joined)
  | statementInto name =>
    cases named : Branch.ofName? name with
    | none =>
      -- A name of no branch would leave the target as it was, without the moved block.
      have counts := settling.hanging.swaps.count source
      simp [Block.put, Block.displaced?, named] at counts
    | some branch =>
      have same := Branch.ofName?_eq_some_iff.mp named
      have head := grafted.heads target branch
      rw [if_pos ⟨by rw [same], rfl⟩] at head
      exact ⟨branch, same, head ▸ joined⟩
  | valueInto name =>
    have slot := grafted.slots target name
    rw [if_pos ⟨rfl, rfl⟩] at slot
    refine ⟨_, slot, rfl, fun id held => ?_⟩
    have put := owner.input?_put source (.valueInto name) name
    rw [if_pos rfl] at put
    have fits := settling.hanging.fits.inputs _ (List.mem_of_find?_eq_some put)
    rw [isShadow_setTopLevel] at fits
    apply fits.shadow
    simpa [slot?, settling.found] using held

end Settling

/-- A move that succeeds grafts the stretch of the moved block into its place. -/
theorem connect_grafted (linked : arena.WellLinked)
    (ended : connect source target placement arena = .ok () next) :
    ∃ chain rest, arena.Stretch (some source) chain none ∧
      (arena.unplugged source).Stretch (some source) chain none ∧
      (arena.unplugged source).Stretch ((arena.unplugged source).standing? target placement) rest none ∧
      (arena.unplugged source).Grafted next source target placement chain ∧
      (arena.unplugged source).ReadsOff next source target chain rest placement := by
  obtain ⟨moved, loose, owner, tail, found, solid, unlinked, settling, rfl⟩ :=
    (after_of_ok ended).mp (after_connect_settled linked source target placement)
  obtain rfl : arena.unplugged source = loose := by
    rw [unlink_eq linked found solid] at unlinked
    cases unlinked
    rfl
  obtain ⟨chain, upper⟩ := exists_stretch settling.forest (some source) fun id same =>
    settling.stored (.inl (Option.some.inj same).symm)
  obtain ⟨rest, lower⟩ := exists_stretch settling.forest (owner.displaced? placement) fun id same =>
    settling.stored (.inr (.inr (.inr same)))
  have last := settling.getLast?_eq upper
  have grafted := settling.grafted last
  refine ⟨chain, rest, ?_, upper, ?_, grafted, settling.readsOff grafted last upper lower⟩
  · apply upper.congr
    intro id member
    obtain ⟨block, stored⟩ := upper.stored member
    have above : Above arena.parent? source id := by
      refine (upper.above (parent_of_below? settling.forest) member).mono fun lower higher link => ?_
      rw [parent?_unplugged] at link
      split at link
      · cases link
      · exact link
    -- Nothing below the moved block has it next below.
    have notBelow : arena.below? id ≠ some source := fun below =>
      (linked.forest.rooted source).not_above_parent (parent_of_below? linked.forest id source below)
        above
    rw [below?_unplugged, exchanged_of_ne notBelow]
    exact ⟨(exists_get?_unplugged arena source id).mp ⟨block, stored⟩, rfl⟩
  · rw [settling.standing?_eq]
    exact lower

end

end Arena

namespace Project

open Revision

variable {project next : Project} {index : Nat} {target : Target} {source owner : String}
  {placement : Placement}

/-- A connected block is spliced in exactly: its whole stretch comes into its place, the stretch that
stood there comes below it, and every other link is as the block left it when it was unplugged. The
arena stays well-linked, so that no cycle comes about, and has the blocks that it had. -/
theorem connectBlocks_grafts (required : project.requireEditing = .ok (index, target))
    (linked : target.blocks.WellLinked)
    (connected : connectBlocks source owner placement project = .ok () next) :
    ∃ after chain rest, next = project.putBlocks index after ∧ after.WellLinked ∧
      after.ids = target.blocks.ids ∧
      (∀ id old new, target.blocks.get? id = some old → after.get? id = some new →
        new.opcode = old.opcode ∧ new.fields = old.fields ∧ new.mutation = old.mutation) ∧
      source ∉ after.scripts ∧ after.parent? source = some owner ∧
      target.blocks.Stretch (some source) chain none ∧
      (target.blocks.unplugged source).Stretch (some source) chain none ∧
      (target.blocks.unplugged source).Stretch
        ((target.blocks.unplugged source).standing? owner placement) rest none ∧
      (target.blocks.unplugged source).Grafted after source owner placement chain ∧
      (target.blocks.unplugged source).ReadsOff after source owner chain rest placement := by
  obtain ⟨after, ended, rfl⟩ := (onEditingBlocks_eq_ok_iff required).mp connected
  obtain ⟨chain, rest, own, upper, lower, grafted, reads⟩ := Arena.connect_grafted linked ended
  have kept := (after_of_ok ended).mp (Arena.after_connect linked source owner placement)
  refine ⟨after, chain, rest, rfl, kept, ?_, ?_, ?_, ?_, own, upper, lower, grafted, reads⟩
  · rw [grafted.ids, Arena.ids_unplugged]
  · intro id old new found stored
    have loose := target.blocks.get?_unplugged source id
    rw [found, Option.map_some] at loose
    obtain ⟨opcode, fields, mutation⟩ := grafted.contents id _ new loose stored
    rw [opcode, fields, mutation]
    split <;> exact ⟨rfl, rfl, rfl⟩
  · rw [grafted.scripts, Arena.mem_withoutScript]
    exact fun listed => listed.2 rfl
  · rw [grafted.parents, if_pos rfl]

/-- When the flag is clicked, a loop moves by a sum of steps; then the sprite shows and hides. -/
def danceArena : Arena where
  blocks := .ofList
    [("flag", { opcode := "event_whenflagclicked", next := some "loop", topLevel := true
                x := some Binary64.zero, y := some Binary64.zero }),
      ("loop", { opcode := "control_repeat", parent := some "flag", next := some "show"
                 inputs := [⟨"TIMES", some "times", some "times"⟩]
                 branches := { first := some "move" } }),
      ("times", { opcode := "math_whole_number", parent := some "loop" }),
      ("move", { opcode := "motion_movesteps", parent := some "loop"
                 inputs := [⟨"STEPS", some "sum", some "steps"⟩] }),
      ("sum", { opcode := "operator_add", parent := some "move" }),
      ("steps", { opcode := "math_number", parent := some "move" }),
      ("show", { opcode := "looks_show", parent := some "loop", next := some "hide" }),
      ("hide", { opcode := "looks_hide", parent := some "show" })]
  scripts := ["flag"]

def danceTarget : Target where
  name := "Cat"
  isStage := false
  blocks := danceArena

def danceProject : Project :=
  .ofTargets [danceTarget] ∅

theorem wellLinked_danceArena : danceArena.WellLinked := by
  apply Arena.wellLinked_of_sound <;> decide +kernel

/-- The sequence below the loop goes into the loop, on top of what stood there. -/
theorem connectBlocks_grafts_dance :
    danceArena.WellLinked ∧
      ∃ next after chain rest, connectBlocks "show" "loop" (.statementInto "SUBSTACK") danceProject =
          .ok () next ∧ next = danceProject.putBlocks 0 after ∧ after.WellLinked ∧
        chain = ["show", "hide"] ∧ rest = ["move"] ∧
        (danceArena.unplugged "show").Grafted after "show" "loop" (.statementInto "SUBSTACK") chain ∧
        after.Stretch (after.headOf? "loop" .first) (chain ++ rest) none := by
  have required : danceProject.requireEditing = .ok (0, danceTarget) := rfl
  have ended : connectBlocks "show" "loop" (.statementInto "SUBSTACK") danceProject =
      .ok () ((connectBlocks "show" "loop" (.statementInto "SUBSTACK")).final danceProject) := by
    decide +kernel
  obtain ⟨after, chain, rest, placed, linked, -, -, -, -, own, -, lower, grafted, branch, named, reads⟩ :=
    connectBlocks_grafts required wellLinked_danceArena ended
  have upper : danceArena.Stretch (some "show") ["show", "hide"] none := by
    have first : danceArena.get? "show" =
        some { opcode := "looks_show", parent := some "loop", next := some "hide" } := by
      decide +kernel
    have second : danceArena.get? "hide" = some { opcode := "looks_hide", parent := some "show" } := by
      decide +kernel
    exact .cons first (.cons second (.nil none))
  have inner : (danceArena.unplugged "show").Stretch (some "move") ["move"] none := by
    have move : (danceArena.unplugged "show").get? "move" =
        some { opcode := "motion_movesteps", parent := some "loop"
               inputs := [⟨"STEPS", some "sum", some "steps"⟩] } := by decide +kernel
    exact .cons move (.nil none)
  have standing : (danceArena.unplugged "show").standing? "loop" (.statementInto "SUBSTACK") =
      some "move" := by decide +kernel
  have first : branch = .first := by
    cases branch with
    | first => rfl
    | second => exact absurd named (by decide)
  subst first
  have chainIs := Arena.Stretch.unique own upper
  have restIs := Arena.Stretch.unique (standing ▸ lower) inner
  exact ⟨wellLinked_danceArena, _, after, chain, rest, ended, placed, linked, chainIs, restIs, grafted,
    reads⟩

end Project

end BlockGraph
