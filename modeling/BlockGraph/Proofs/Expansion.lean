import BlockGraph.Proofs.Reading

/-!
Every literal gets a block of its own. The keys of a document and the literals at live positions of its
inputs are told apart when they are read: each literal has a new id, its block is the one that its code
prescribes, and the id stands where the literal stood. Nothing that is written in full is lost or
overwritten, and blocks are readable unless an entry or a literal is of no known form.
-/

set_option autoImplicit false

namespace BlockGraph

namespace Input

variable {inputs : List Input}

/-- Among distinct names, the first input of a name is the only one. -/
theorem modifyFirst_name_eq_map (distinct : (inputs.map Input.name).Nodup) (name : String)
    (change : Input → Input) :
    modifyFirst (fun input => input.name = name) change inputs =
      inputs.map fun input => if input.name = name then change input else input := by
  induction inputs with
  | nil => rfl
  | cons head rest ih =>
    have apart := List.nodup_cons.mp distinct
    rw [modifyFirst, List.map_cons]
    by_cases named : head.name = name
    · have others : ∀ input ∈ rest,
          (if input.name = name then change input else input) = id input := by
        intro input member
        have different : input.name ≠ name := by
          rintro rfl
          exact apart.1 (List.mem_map.mpr ⟨input, member, named.symm⟩)
        rw [if_neg different, id]
      rw [List.map_congr_left others, List.map_id]
      simp [named]
    · rw [ih apart.2]
      simp [named]

end Input

theorem Block.withInput_eq_map {block : Block} {name : String} {change : Input → Input}
    (distinct : (block.inputs.map Input.name).Nodup) (member : name ∈ block.inputs.map Input.name) :
    block.withInput name change = { block with
      inputs := block.inputs.map fun input => if input.name = name then change input else input } := by
  obtain ⟨input, listed, named⟩ := List.mem_map.mp member
  have present : (block.input? name).isSome := by
    rw [Block.input?, List.find?_isSome]
    exact ⟨input, listed, by simpa using named⟩
  rw [withInput, if_pos present, modifyInput, Input.modifyFirst_name_eq_map distinct]

namespace Document

open Outcomes

/-- Literals by their code: the type of their block, its field, and whether the field refers to
something by id. -/
def literalTable : List (Int × String × String × Bool) :=
  [(4, "math_number", "NUM", false), (5, "math_positive_number", "NUM", false),
    (6, "math_whole_number", "NUM", false), (7, "math_integer", "NUM", false),
    (8, "math_angle", "NUM", false), (9, "colour_picker", "COLOUR", false),
    (10, "text", "TEXT", false), (11, "event_broadcast_menu", "BROADCAST_OPTION", true),
    (12, "data_variable", "VARIABLE", true), (13, "data_listcontents", "LIST", true)]

def code? (items : List Json) : Option Int :=
  items.head?.bind Json.signedWord?

/-- The field of a literal: its text, and the id that it refers to. -/
def literalField (refers : Bool) (items : List Json) : Field where
  value := (items[1]?.map valueText).getD ""
  id := if refers then some ((items[2]?.bind Json.text?).getD "") else none

/-- The block that the code of a literal prescribes. -/
def Prescribes (items : List Json) (block : Block) : Prop :=
  ∃ code opcode field refers, (code, opcode, field, refers) ∈ literalTable ∧
    code? items = some code ∧
    block = { opcode := opcode, fields := (∅ : Dict Field).insert field (literalField refers items) }

theorem literalBlock?_eq_some_iff {items : List Json} {block : Block} :
    literalBlock? items = some block ↔ Prescribes items block := by
  constructor
  · intro read
    simp only [literalBlock?, Option.bind_eq_bind, Option.bind_eq_some_iff, Option.pure_def] at read
    obtain ⟨code, isCode, read⟩ := read
    have coded : code? items = some code := Option.bind_eq_some_iff.mpr isCode
    split at read <;> cases read <;>
      first
      | exact ⟨_, _, _, false, by simp [literalTable], coded, rfl⟩
      | exact ⟨_, _, _, true, by simp [literalTable], coded, rfl⟩
  · rintro ⟨code, opcode, field, refers, listed, coded, rfl⟩
    rw [code?] at coded
    simp only [literalTable, List.mem_cons, Prod.mk.injEq, List.not_mem_nil, or_false] at listed
    rcases listed with ⟨rfl, rfl, rfl, rfl⟩ | ⟨rfl, rfl, rfl, rfl⟩ | ⟨rfl, rfl, rfl, rfl⟩ |
      ⟨rfl, rfl, rfl, rfl⟩ | ⟨rfl, rfl, rfl, rfl⟩ | ⟨rfl, rfl, rfl, rfl⟩ | ⟨rfl, rfl, rfl, rfl⟩ |
      ⟨rfl, rfl, rfl, rfl⟩ | ⟨rfl, rfl, rfl, rfl⟩ | ⟨rfl, rfl, rfl, rfl⟩ <;>
      simp only [literalBlock?, coded] <;> rfl

/-- Positions of an input that are read, by its mode, and the seats that they fill. -/
def livePositions : List (Int × Nat × Seat) :=
  [(1, 1, .both), (2, 1, .block), (3, 1, .block), (3, 2, .shadow)]

theorem seats_eq (items : List Json) : seats items = match (code? items).getD 0 with
    | 1 => [(.both, items[1]?)]
    | 2 => [(.block, items[1]?)]
    | 3 => [(.block, items[1]?), (.shadow, items[2]?)]
    | _ => [] :=
  rfl

theorem mem_seats_iff {items : List Json} {seat : Seat} {payload : Option Json} :
    (seat, payload) ∈ seats items ↔ ∃ mode position, code? items = some mode ∧
      (mode, position, seat) ∈ livePositions ∧ payload = items[position]? := by
  rw [seats_eq]
  cases code? items with
  | none => simp
  | some mode =>
    simp only [Option.getD_some, Option.some.injEq, livePositions, List.mem_cons,
      Prod.mk.injEq, List.not_mem_nil, or_false]
    split <;> aesop

/-- What stands in a slot of a block. -/
def slot? (value : Json) (name : String) : Option Json :=
  (value.get? "inputs").bind (·.get? name)

theorem mem_valueSlots_iff {value slot : Json} {name : String} :
    (name, slot) ∈ valueSlots value ↔ Branch.ofName? name = none ∧ slot? value name = some slot := by
  rw [valueSlots, List.mem_filter, ← Dict.get?_eq_some_iff, slot?, and_comm]
  cases value.get? "inputs" with
  | none => simp
  | some inputs =>
    rw [Option.bind_some, Option.bind_some, Json.get?_eq, Option.isNone_iff_eq_none]

/-- A literal at a live position of an input. -/
def LiteralAt (blocks : Dict Json) (owner input : String) (seat : Seat) (literal : List Json) :
    Prop :=
  ∃ members items mode position, blocks.get? owner = some (.object members) ∧
    Branch.ofName? input = none ∧ slot? (.object members) input = some (.array items) ∧
    code? items = some mode ∧ (mode, position, seat) ∈ livePositions ∧
    items[position]? = some (.array literal)

theorem mem_pendingOf_iff {owner name : String} {value : Json} {pending : Pending} :
    pending ∈ pendingOf owner name value ↔ pending.owner = owner ∧ pending.input = name ∧
      (pending.seat, some (.array pending.literal)) ∈ seats (value.items?.getD []) := by
  rw [pendingOf, List.mem_filterMap]
  constructor
  · rintro ⟨⟨seat, payload⟩, listed, queued⟩
    simp only at queued
    split at queued
    · cases queued
      exact ⟨rfl, rfl, listed⟩
    · cases queued
  · rintro ⟨rfl, rfl, listed⟩
    exact ⟨_, listed, rfl⟩

/-- What is queued while blocks are read are the literals at live positions. -/
theorem mem_pending_iff {blocks : Dict Json} {pending : Pending} :
    pending ∈ blocks.entries.flatMap pendingInputs ↔
      LiteralAt blocks pending.owner pending.input pending.seat pending.literal := by
  rw [List.mem_flatMap]
  constructor
  · rintro ⟨⟨owner, value⟩, listed, queued⟩
    cases value with
    | object members =>
      obtain ⟨⟨name, slot⟩, inside, queued⟩ := List.mem_flatMap.mp queued
      obtain ⟨rfl, rfl, seated⟩ := mem_pendingOf_iff.mp queued
      obtain ⟨isValue, stands⟩ := mem_valueSlots_iff.mp inside
      obtain ⟨mode, position, coded, live, payload⟩ := mem_seats_iff.mp seated
      cases slot with
      | array items =>
        exact ⟨members, items, mode, position, (Dict.get?_eq_some_iff _ _ _).mpr listed, isValue,
          stands, coded, live, payload.symm⟩
      | null | bool | number | text | object => cases coded
    | null | bool | number | text | array => cases queued
  · rintro ⟨members, items, mode, position, found, isValue, stands, coded, live, payload⟩
    refine ⟨_, (Dict.get?_eq_some_iff _ _ _).mp found, ?_⟩
    refine List.mem_flatMap.mpr ⟨_, mem_valueSlots_iff.mpr ⟨isValue, stands⟩, ?_⟩
    exact mem_pendingOf_iff.mpr
      ⟨rfl, rfl, mem_seats_iff.mpr ⟨mode, position, coded, live, payload.symm⟩⟩

/-- The ids that literals get, by owner, input and seat. -/
abbrev Labels := String → String → Seat → String

namespace Pending

def place (pending : Pending) : String × String × Seat :=
  (pending.owner, pending.input, pending.seat)

def label (labels : Labels) (pending : Pending) : String :=
  labels pending.owner pending.input pending.seat

/-- Puts the id of a literal into an input. -/
def settle (labels : Labels) (input : Input) (pending : Pending) : Input :=
  pending.seat.fill (pending.label labels) input

/-- Puts the id of a literal into its owner. -/
def settleIn (labels : Labels) (id : String) (block : Block) (pending : Pending) : Block :=
  if pending.owner = id then
    block.withInput pending.input fun input => pending.settle labels input
  else block

/-- Only literals in its own inputs change a block. -/
theorem foldl_settleIn_idle {labels : Labels} {id : String} {queue : List Pending}
    (strangers : ∀ pending ∈ queue, pending.owner ≠ id) (block : Block) :
    queue.foldl (settleIn labels id) block = block := by
  induction queue with
  | nil => rfl
  | cons pending rest ih =>
    rw [List.foldl_cons, settleIn, if_neg (strangers pending List.mem_cons_self)]
    exact ih fun other member => strangers other (List.mem_cons_of_mem _ member)

theorem foldl_settleIn_congr {first second : Labels} {queue : List Pending}
    (same : ∀ pending ∈ queue, pending.label first = pending.label second) (id : String)
    (block : Block) :
    queue.foldl (settleIn first id) block = queue.foldl (settleIn second id) block := by
  apply List.foldl_ext
  intro held pending member
  simp only [settleIn, settle, same pending member]

end Pending

/-- What giving blocks to queued literals makes of an arena. -/
structure Settles (start : Arena) (queue : List Pending) (finish : Arena) (labels : Labels) :
    Prop where
  fresh : ∀ pending ∈ queue, start.get? (pending.label labels) = none
  distinct : ∀ first ∈ queue, ∀ second ∈ queue, first.label labels = second.label labels →
    first.place = second.place
  stored : ∀ id, (finish.get? id).isSome ↔
    (start.get? id).isSome ∨ ∃ pending ∈ queue, id = pending.label labels
  literals : ∀ pending ∈ queue, ∃ block, literalBlock? pending.literal = some block ∧
    finish.get? (pending.label labels) = some { block with parent := some pending.owner }
  filled : ∀ id block, start.get? id = some block →
    finish.get? id = some (queue.foldl (Pending.settleIn labels id) block)

/-- What one literal adds to an arena: a block under a new id, which stands in its place. -/
structure Adds (start : Arena) (pending : Pending) (next : Arena) (id : String) : Prop where
  fresh : start.get? id = none
  literal : ∃ block, literalBlock? pending.literal = some block ∧
    next.get? id = some { block with parent := some pending.owner }
  kept : ∀ other block, start.get? other = some block → next.get? other = some
    (if pending.owner = other then block.withInput pending.input (pending.seat.fill id) else block)
  stored : ∀ other, (next.get? other).isSome ↔ (start.get? other).isSome ∨ other = id

theorem adds_storePending {start next : Arena} {pending : Pending}
    (owned : (start.get? pending.owner).isSome) (stored : storePending start pending = .ok next) :
    ∃ id, Adds start pending next id := by
  have fresh := start.get?_freshId "prim"
  simp only [storePending] at stored
  split at stored
  · cases stored
  rename_i block prescribed
  cases stored
  have lookup : ∀ other, ((start.freshId "prim").2).get? other = start.get? other := fun _ => rfl
  refine ⟨_, fresh, ⟨block, prescribed, ?_⟩, fun other held found => ?_, fun other => ?_⟩
  · have different : (start.freshId "prim").1 ≠ pending.owner := by
      intro same
      rw [← same, fresh] at owned
      cases owned
    rw [Arena.get?_modifyBlock, if_neg different, Arena.get?_insert, if_pos rfl]
  · have different : (start.freshId "prim").1 ≠ other := by
      intro same
      rw [same, found] at fresh
      cases fresh
    rw [Arena.get?_modifyBlock, Arena.get?_insert, if_neg different, lookup, found]
    by_cases isOwner : pending.owner = other
    · rw [if_pos isOwner.symm, if_pos isOwner]
      rfl
    · rw [if_neg (Ne.symm isOwner), if_neg isOwner]
  · rw [Arena.isSome_modifyBlock, Arena.isSome_insert, lookup, or_comm]
    exact or_congr_right eq_comm

/-- The literal at the head of a queue is labelled apart from the others. -/
theorem Settles.cons {start next finish : Arena} {pending : Pending} {queue : List Pending}
    {labels : Labels} {id : String} (apart : ∀ other ∈ queue, other.place ≠ pending.place)
    (owned : ∀ other ∈ queue, (start.get? other.owner).isSome) (adds : Adds start pending next id)
    (settles : Settles next queue finish labels) :
    ∃ labels, Settles start (pending :: queue) finish labels := by
  -- Places are not queued twice, so a label for the head does not touch the others.
  let relabelled : Labels := fun owner input seat =>
    if (owner, input, seat) = pending.place then id else labels owner input seat
  have own : pending.label relabelled = id := if_pos rfl
  have others : ∀ other ∈ queue, other.label relabelled = other.label labels :=
    fun other member => if_neg (apart other member)
  obtain ⟨block, prescribed, isNew⟩ := adds.literal
  have apartId : ∀ other ∈ queue, other.label labels ≠ id := by
    intro other member same
    have missing := settles.fresh other member
    rw [same] at missing
    cases missing.symm.trans isNew
  refine ⟨relabelled, ?_, ?_, ?_, ?_, ?_⟩
  · intro other member
    rcases List.mem_cons.mp member with rfl | later
    · rw [own, adds.fresh]
    · rw [others other later]
      have missing := settles.fresh other later
      cases found : start.get? (other.label labels) with
      | none => rfl
      | some held => cases missing.symm.trans (adds.kept _ held found)
  · intro first firstMember second secondMember same
    rcases List.mem_cons.mp firstMember with rfl | firstLater
    · rcases List.mem_cons.mp secondMember with rfl | secondLater
      · rfl
      · rw [own, others second secondLater] at same
        exact absurd same.symm (apartId second secondLater)
    · rcases List.mem_cons.mp secondMember with rfl | secondLater
      · rw [own, others first firstLater] at same
        exact absurd same (apartId first firstLater)
      · rw [others first firstLater, others second secondLater] at same
        exact settles.distinct first firstLater second secondLater same
  · intro other
    have queued : (∃ held ∈ queue, other = held.label labels) ↔
        ∃ held ∈ queue, other = held.label relabelled := by
      refine exists_congr fun held => and_congr_right fun member => ?_
      rw [others held member]
    rw [settles.stored, adds.stored, List.exists_mem_cons_iff, own, queued, or_assoc]
  · intro other member
    rcases List.mem_cons.mp member with rfl | later
    · -- The new block owns none of the literals that are left.
      have strangers : ∀ later ∈ queue, later.owner ≠ id := by
        intro later inside same
        have present := owned later inside
        rw [same, adds.fresh] at present
        cases present
      have finished := settles.filled id _ isNew
      rw [Pending.foldl_settleIn_idle strangers] at finished
      exact ⟨block, prescribed, own ▸ finished⟩
    · rw [others other later]
      exact settles.literals other later
  · intro other held found
    have step : pending.settleIn relabelled other held =
        if pending.owner = other then held.withInput pending.input (pending.seat.fill id) else held := by
      rw [Pending.settleIn, ← own]
      rfl
    rw [List.foldl_cons, Pending.foldl_settleIn_congr others other, step]
    exact settles.filled other _ (adds.kept other held found)

/-- Queued literals at different places get blocks of their own, one after the other. -/
theorem exists_settles {start finish : Arena} {queue : List Pending}
    (distinct : (queue.map Pending.place).Nodup)
    (owned : ∀ pending ∈ queue, (start.get? pending.owner).isSome)
    (folded : queue.foldlM storePending start = .ok finish) :
    ∃ labels, Settles start queue finish labels := by
  induction queue generalizing start with
  | nil =>
    cases folded
    exact ⟨fun _ _ _ => "", by simp, by simp, by simp, by simp, fun _ _ found => found⟩
  | cons pending rest ih =>
    obtain ⟨next, first, later⟩ := foldlM_cons_eq_ok.mp folded
    have apart := List.nodup_cons.mp distinct
    obtain ⟨id, adds⟩ := adds_storePending (owned pending List.mem_cons_self) first
    have restOwned : ∀ other ∈ rest, (start.get? other.owner).isSome :=
      fun other member => owned other (List.mem_cons_of_mem _ member)
    obtain ⟨labels, settles⟩ := ih apart.2
      (fun other member => (adds.stored other.owner).mpr (.inl (restOwned other member))) later
    refine settles.cons (fun other member same => apart.1 ?_) restOwned adds
    exact List.mem_map.mpr ⟨other, member, same⟩

/-- An input with the ids of the queued literals that belong to it. -/
def settled (labels : Labels) (queue : List Pending) (owner : String) (input : Input) : Input :=
  (queue.filter fun pending => pending.owner = owner ∧ pending.input = input.name).foldl
    (Pending.settle labels) input

theorem settled_cons (labels : Labels) (pending : Pending) (queue : List Pending) (owner : String)
    (input : Input) :
    settled labels (pending :: queue) owner input = settled labels queue owner
      (if pending.owner = owner ∧ pending.input = input.name then pending.settle labels input
        else input) := by
  by_cases mine : pending.owner = owner ∧ pending.input = input.name
  · have named : (pending.settle labels input).name = input.name := name_fill _ _ _
    rw [if_pos mine, settled, settled, List.filter_cons_of_pos (by simpa using mine),
      List.foldl_cons, named]
  · rw [if_neg mine, settled, settled, List.filter_cons_of_neg (by simpa using mine)]

/-- All literals of a block go into its inputs, each into the one of its name. -/
theorem foldl_settleIn_eq (labels : Labels) {queue : List Pending} {id : String} {block : Block}
    (distinct : (block.inputs.map Input.name).Nodup)
    (named : ∀ pending ∈ queue, pending.owner = id → pending.input ∈ block.inputs.map Input.name) :
    queue.foldl (Pending.settleIn labels id) block =
      { block with inputs := block.inputs.map (settled labels queue id) } := by
  induction queue generalizing block with
  | nil =>
    have same : settled labels [] id = fun input => input := rfl
    rw [same, List.map_id']
    rfl
  | cons pending rest ih =>
    let change (input : Input) : Input :=
      if pending.owner = id ∧ pending.input = input.name then pending.settle labels input else input
    have names : (block.inputs.map change).map Input.name = block.inputs.map Input.name := by
      rw [List.map_map]
      refine List.map_congr_left fun input _ => ?_
      simp only [Function.comp_apply, change]
      split
      · exact name_fill _ _ _
      · rfl
    have step : pending.settleIn labels id block = { block with inputs := block.inputs.map change } := by
      by_cases mine : pending.owner = id
      · rw [Pending.settleIn, if_pos mine,
          Block.withInput_eq_map distinct (named pending List.mem_cons_self mine)]
        simp only [change, mine, true_and, eq_comm]
      · have same : change = fun input => input := by
          funext input
          exact if_neg fun both => mine both.1
        rw [Pending.settleIn, if_neg mine, same, List.map_id']
    rw [List.foldl_cons, step, ih]
    · simp only [List.map_map]
      congr 1
      refine List.map_congr_left fun input _ => ?_
      exact (settled_cons labels pending rest id input).symm
    · rwa [names]
    · intro other member mine
      rw [names]
      exact named other (List.mem_cons_of_mem _ member) mine

/-- What fills a seat: the id that stands there, or the one that a literal has got. -/
def seated (label : Seat → String) (seat : Seat) : Option Json → Option String
  | some (.text id) => some id
  | some (.array _) => some (label seat)
  | _ => none

/-- An input with the ids of its literals in their places, by its mode. -/
def expandedInput (label : Seat → String) (name : String) (value : Json) : Input :=
  let items := value.items?.getD []
  match code? items with
  | some 1 => ⟨name, seated label .both items[1]?, seated label .both items[1]?⟩
  | some 2 => ⟨name, seated label .block items[1]?, none⟩
  | some 3 => ⟨name, seated label .block items[1]?, seated label .shadow items[2]?⟩
  | _ => Input.empty name

theorem foldl_settle_readInput (labels : Labels) (owner name : String) (value : Json) :
    (pendingOf owner name value).foldl (Pending.settle labels) (readInput name value) =
      expandedInput (labels owner name) name value := by
  simp only [pendingOf, readInput, expandedInput, seats_eq]
  generalize value.items?.getD [] = items
  generalize items[1]? = first
  generalize items[2]? = second
  cases code? items with
  | none => rfl
  | some mode =>
    rw [Option.getD_some]
    split
    · rcases first with _ | (_ | _ | _ | _ | _ | _) <;> rfl
    · rcases first with _ | (_ | _ | _ | _ | _ | _) <;> rfl
    · rcases first with _ | (_ | _ | _ | _ | _ | _) <;>
        rcases second with _ | (_ | _ | _ | _ | _ | _) <;> rfl
    · split
      · simp_all
      · simp_all
      · simp_all
      · rfl

/-- Of all entries, only the one with the right key has something that passes a test. -/
theorem filter_flatMap_of_key {α β : Type} {entries : List (String × α)}
    {list : String × α → List β} {test : β → Bool} (distinct : (entries.map Prod.fst).Nodup)
    {entry : String × α} (member : entry ∈ entries)
    (others : ∀ other ∈ entries, other.1 ≠ entry.1 → (list other).filter test = []) :
    (entries.flatMap list).filter test = (list entry).filter test := by
  induction entries with
  | nil => cases member
  | cons head rest ih =>
    have apart := List.nodup_cons.mp distinct
    rw [List.flatMap_cons, List.filter_append]
    rcases List.mem_cons.mp member with rfl | later
    · have none : (rest.flatMap list).filter test = [] := by
        rw [List.filter_flatMap, List.flatMap_eq_nil_iff]
        intro other inside
        refine others other (List.mem_cons_of_mem _ inside) fun same => apart.1 ?_
        exact List.mem_map.mpr ⟨other, inside, same⟩
      rw [none, List.append_nil]
    · have different : head.1 ≠ entry.1 := fun same =>
        apart.1 (List.mem_map.mpr ⟨entry, later, same.symm⟩)
      rw [others head List.mem_cons_self different, List.nil_append]
      exact ih apart.2 later fun other inside => others other (List.mem_cons_of_mem _ inside)

theorem owner_of_pendingInputs {entry : String × Json} {pending : Pending}
    (member : pending ∈ pendingInputs entry) : pending.owner = entry.1 := by
  obtain ⟨id, value⟩ := entry
  cases value with
  | object members =>
    obtain ⟨slot, -, inside⟩ := List.mem_flatMap.mp member
    exact (mem_pendingOf_iff.mp inside).1
  | null | bool | number | text | array => cases member

/-- The literals of one input stand together in the queue. -/
theorem filter_pending {blocks : Dict Json} {id name : String} {members : List (String × Json)}
    {value : Json} (found : blocks.get? id = some (.object members))
    (slot : (name, value) ∈ valueSlots (.object members)) :
    ((blocks.entries.flatMap pendingInputs).filter fun pending =>
      pending.owner = id ∧ pending.input = name) = pendingOf id name value := by
  have member := (Dict.get?_eq_some_iff _ _ _).mp found
  rw [filter_flatMap_of_key (Entries.nodup_keys blocks.sorted) member]
  -- First the entry with the id of the owner, and then the slot with the name of the input.
  · change ((valueSlots (.object members)).flatMap fun slot => pendingOf id slot.1 slot.2).filter _ = _
    rw [filter_flatMap_of_key (names_valueSlots _).1 slot]
    · apply List.filter_eq_self.mpr
      intro pending inside
      obtain ⟨owner, input, -⟩ := mem_pendingOf_iff.mp inside
      simp [owner, input]
    · intro other _ different
      apply List.filter_eq_nil_iff.mpr
      intro pending inside
      have input := (mem_pendingOf_iff.mp inside).2.1
      simp [input, different]
  · intro other _ different
    apply List.filter_eq_nil_iff.mpr
    intro pending inside
    simp [owner_of_pendingInputs inside, different]

theorem settled_readInput (labels : Labels) {blocks : Dict Json} {id name : String}
    {members : List (String × Json)} {value : Json}
    (found : blocks.get? id = some (.object members))
    (slot : (name, value) ∈ valueSlots (.object members)) :
    settled labels (blocks.entries.flatMap pendingInputs) id (readInput name value) =
      expandedInput (labels id name) name value := by
  rw [settled, name_readInput, filter_pending found slot, foldl_settle_readInput]

theorem distinct_pendingOf (owner name : String) (value : Json) :
    (pendingOf owner name value).Pairwise fun first second => first.place ≠ second.place := by
  have distinct : (seats (value.items?.getD [])).Pairwise fun first second => first.1 ≠ second.1 := by
    rw [seats_eq]
    split <;> simp
  refine List.Pairwise.filterMap _ ?_ distinct
  rintro ⟨seat, payload⟩ ⟨seat', payload'⟩ different pending queued other queued' same
  have seats : pending.seat = other.seat := congrArg (·.2.2) same
  simp only at queued queued'
  split at queued
  · split at queued'
    · cases queued
      cases queued'
      exact different seats
    · cases queued'
  · cases queued

/-- No place is queued twice. -/
theorem distinct_pending (blocks : Dict Json) :
    ((blocks.entries.flatMap pendingInputs).map Pending.place).Nodup := by
  apply List.pairwise_map.mpr
  rw [List.pairwise_flatMap]
  constructor
  · rintro ⟨id, value⟩ -
    cases value with
    | object members =>
      apply List.pairwise_flatMap.mpr
      refine ⟨fun slot _ => distinct_pendingOf id slot.1 slot.2, ?_⟩
      refine (List.pairwise_map.mp (names_valueSlots (.object members)).1).imp ?_
      intro first second different pending queued other queued' same
      have inputs : pending.input = other.input := congrArg (·.2.1) same
      rw [(mem_pendingOf_iff.mp queued).2.1, (mem_pendingOf_iff.mp queued').2.1] at inputs
      exact different inputs
    | null | bool | number | text | array => exact List.Pairwise.nil
  · refine (List.pairwise_map.mp (Entries.nodup_keys blocks.sorted)).imp ?_
    intro first second different pending queued other queued' same
    have owners : pending.owner = other.owner := congrArg (·.1) same
    rw [owner_of_pendingInputs queued, owner_of_pendingInputs queued'] at owners
    exact different owners

/-- How the blocks of a document are expanded, given the ids that the literals in inputs have got. -/
structure Expanded (blocks : Dict Json) (labels : Labels) (arena : Arena) : Prop where
  ids : ∀ id, id ∈ arena.ids ↔ id ∈ blocks.keys ∨
    ∃ owner input seat literal, LiteralAt blocks owner input seat literal ∧
      id = labels owner input seat
  fresh : ∀ owner input seat literal, LiteralAt blocks owner input seat literal →
    labels owner input seat ∉ blocks.keys
  distinct : ∀ owner input seat literal owner' input' seat' literal',
    LiteralAt blocks owner input seat literal → LiteralAt blocks owner' input' seat' literal' →
    labels owner input seat = labels owner' input' seat' →
    owner = owner' ∧ input = input' ∧ seat = seat'
  /-- A literal in an input is the block that its code prescribes, below the owner of the input. -/
  literals : ∀ owner input seat literal, LiteralAt blocks owner input seat literal →
    ∃ block, Prescribes literal block ∧
      arena.get? (labels owner input seat) = some { block with parent := some owner }
  /-- A literal on the workspace is a script. -/
  standing : ∀ id items, blocks.get? id = some (.array items) →
    ∃ block, Prescribes items block ∧ arena.get? id = some {
      block with
      topLevel := true
      x := items[3]?.bind Json.binary64?
      y := items[4]?.bind Json.binary64? }
  /-- A block that is written in full is stored as it is read, with the ids of literals in their
  places. -/
  written : ∀ id members, blocks.get? id = some (.object members) →
    ∃ block, readBlock id (.object members) = .ok block ∧ arena.get? id = some {
      block with
      inputs := (valueSlots (.object members)).map fun slot =>
        expandedInput (labels id slot.1) slot.1 slot.2 }

theorem inputs_readBlock {id : String} {value : Json} {block : Block}
    (read : readBlock id value = .ok block) :
    block.inputs = (valueSlots value).map fun slot => readInput slot.1 slot.2 := by
  rw [readBlock] at read
  split at read
  · cases read
  · cases read
    rfl

/-- Once the queued literals have got their blocks, a block that is written in full has their ids in
its inputs. -/
theorem Settles.get?_written {blocks : Dict Json} {start finish : Arena} {labels : Labels}
    (settles : Settles start (blocks.entries.flatMap pendingInputs) finish labels) {id : String}
    {members : List (String × Json)} {block : Block}
    (found : blocks.get? id = some (.object members))
    (read : readBlock id (.object members) = .ok block) (lookup : start.get? id = some block) :
    finish.get? id = some {
      block with
      inputs := (valueSlots (.object members)).map fun slot =>
        expandedInput (labels id slot.1) slot.1 slot.2 } := by
  have inputs := inputs_readBlock read
  have named : ∀ pending ∈ blocks.entries.flatMap pendingInputs, pending.owner = id →
      pending.input ∈ block.inputs.map Input.name := by
    rintro pending queued rfl
    obtain ⟨same, items, -, -, found', isValue, stands, -⟩ := mem_pending_iff.mp queued
    cases found.symm.trans found'
    rw [inputs, names_readInputs]
    exact List.mem_map.mpr ⟨_, mem_valueSlots_iff.mpr ⟨isValue, stands⟩, rfl⟩
  rw [settles.filled id block lookup,
    foldl_settleIn_eq labels (tidy_readBlock read).distinctInputs named, inputs, List.map_map]
  congr 2
  exact List.map_congr_left fun slot member => settled_readInput labels found member

theorem mem_keys_iff {blocks : Dict Json} {id : String} :
    id ∈ blocks.keys ↔ (blocks.get? id).isSome :=
  (blocks.contains_iff_mem_keys id).symm

theorem exists_expanded {blocks : Dict Json} {arena : Arena} (read : readBlocks blocks = .ok arena) :
    ∃ labels, Expanded blocks labels arena := by
  obtain ⟨written, standing, complete, first, second, third, rfl⟩ := readBlocks_eq_ok.mp read
  have keys := isSome_standing first second
  have owned : ∀ pending ∈ blocks.entries.flatMap pendingInputs,
      (standing.get? pending.owner).isSome := by
    intro pending queued
    obtain ⟨members, -, -, -, found, -⟩ := mem_pending_iff.mp queued
    rw [keys, found]
    rfl
  obtain ⟨labels, settles⟩ := exists_settles (distinct_pending blocks) owned third
  have queued : ∀ owner input seat literal, LiteralAt blocks owner input seat literal →
      (⟨owner, input, seat, literal⟩ : Pending) ∈ blocks.entries.flatMap pendingInputs :=
    fun _ _ _ _ stands => mem_pending_iff.mpr stands
  refine ⟨labels, fun id => ?_, ?_, ?_, ?_, ?_, ?_⟩
  · change id ∈ complete.ids ↔ _
    rw [Arena.mem_ids_iff, ← Option.isSome_iff_exists, settles.stored, keys, mem_keys_iff]
    refine or_congr_right ⟨?_, ?_⟩
    · rintro ⟨pending, member, rfl⟩
      exact ⟨_, _, _, _, mem_pending_iff.mp member, rfl⟩
    · rintro ⟨owner, input, seat, literal, stands, rfl⟩
      exact ⟨_, queued owner input seat literal stands, rfl⟩
  · intro owner input seat literal stands known
    have fresh := settles.fresh _ (queued owner input seat literal stands)
    rw [mem_keys_iff, ← keys] at known
    rw [show standing.get? (labels owner input seat) = none from fresh] at known
    cases known
  · intro owner input seat literal owner' input' seat' literal' stands stands' same
    have places := settles.distinct _ (queued owner input seat literal stands) _
      (queued owner' input' seat' literal' stands') same
    simpa [Pending.place] using places
  · intro owner input seat literal stands
    obtain ⟨block, prescribed, lookup⟩ := settles.literals _ (queued owner input seat literal stands)
    exact ⟨block, literalBlock?_eq_some_iff.mp prescribed, lookup⟩
  · intro id items found
    obtain ⟨block, prescribed, lookup⟩ := get?_standing_literal second found
    have strangers : ∀ pending ∈ blocks.entries.flatMap pendingInputs, pending.owner ≠ id := by
      rintro pending member rfl
      obtain ⟨members, -, -, -, found', -⟩ := mem_pending_iff.mp member
      cases found.symm.trans found'
    have finished := settles.filled id _ lookup
    rw [Pending.foldl_settleIn_idle strangers] at finished
    exact ⟨block, literalBlock?_eq_some_iff.mp prescribed, finished⟩
  · intro id members found
    obtain ⟨block, isBlock, lookup⟩ := get?_standing first second found
    exact ⟨block, isBlock, settles.get?_written found isBlock lookup⟩

/-- The ids of two literals in one input pass over the key that looks like one of theirs. -/
example :
    (readBlocks (.ofList
      [("a", .ofMembers [("opcode", .text "motion_movesteps"), ("inputs", .ofMembers
          [("STEPS", .array [.ofNat 3, .array [.ofNat 12, .text "speed", .text "v"],
            .array [.ofNat 4, .text "10"]])])]),
        ("prim_1", .array [.ofNat 12, .text "score", .text "s"])])).map
      (fun arena => (arena.ids, (arena.get? "a").map Block.inputs)) =
      .ok (["a", "prim_1", "prim_2", "prim_3"],
        some [⟨"STEPS", some "prim_2", some "prim_3"⟩]) := by
  decide +kernel

end Document

end BlockGraph
