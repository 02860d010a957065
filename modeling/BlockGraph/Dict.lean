/-!
Finite dictionaries with text keys, kept as lists in strictly increasing key order. Since each key
stands in one place, a dictionary is determined by its lookups (`Dict.ext_get?`), and whatever lists
a dictionary lists it in key order.
-/

set_option autoImplicit false

namespace BlockGraph

variable {α β : Type}

namespace Entries

/-- Value of the first entry under `key`. -/
def get? (key : String) : List (String × α) → Option α
  | [] => none
  | (k, v) :: rest => if k = key then some v else get? key rest

/-- Places `value` under `key`, before the first larger key, replacing an equal one. -/
def insert (key : String) (value : α) : List (String × α) → List (String × α)
  | [] => [(key, value)]
  | (k, v) :: rest =>
    if key < k then (key, value) :: (k, v) :: rest
    else if key = k then (key, value) :: rest
    else (k, v) :: insert key value rest

/-- Keys increase strictly along the list. -/
def Sorted (entries : List (String × α)) : Prop :=
  entries.Pairwise fun a b => a.1 < b.1

instance (entries : List (String × α)) : Decidable (Sorted entries) :=
  inferInstanceAs (Decidable (entries.Pairwise fun a b => a.1 < b.1))

theorem lt_of_not_lt_of_ne {a b : String} (notLess : ¬a < b) (different : a ≠ b) : b < a := by
  apply String.not_le.mp
  intro below
  exact different (String.le_antisymm below (String.not_lt.mp notLess))

theorem mem_insert {key : String} {value : α} {entry : String × α}
    {entries : List (String × α)} (member : entry ∈ insert key value entries) :
    entry = (key, value) ∨ entry ∈ entries := by
  induction entries with
  | nil => simpa [insert] using member
  | cons head rest ih =>
    obtain ⟨k, v⟩ := head
    simp only [insert] at member
    split at member
    · simpa using member
    · split at member
      · rcases List.mem_cons.mp member with same | later
        · exact .inl same
        · exact .inr (List.mem_cons_of_mem _ later)
      · rcases List.mem_cons.mp member with same | later
        · exact .inr (same ▸ List.mem_cons_self)
        · exact (ih later).imp_right (List.mem_cons_of_mem _)

theorem sorted_insert (key : String) (value : α) {entries : List (String × α)}
    (sorted : Sorted entries) : Sorted (insert key value entries) := by
  induction entries with
  | nil => simp [insert, Sorted]
  | cons head rest ih =>
    obtain ⟨k, v⟩ := head
    have above := (List.pairwise_cons.mp sorted).1
    have tail := (List.pairwise_cons.mp sorted).2
    simp only [insert]
    split
    · rename_i less
      refine List.pairwise_cons.mpr ⟨fun entry member => ?_, sorted⟩
      rcases List.mem_cons.mp member with same | later
      · exact same ▸ less
      · exact String.lt_trans less (above entry later)
    · rename_i notLess
      split
      · rename_i same
        subst same
        exact List.pairwise_cons.mpr ⟨above, tail⟩
      · rename_i different
        refine List.pairwise_cons.mpr ⟨fun entry member => ?_, ih tail⟩
        rcases mem_insert member with same | later
        · exact same ▸ lt_of_not_lt_of_ne notLess different
        · exact above entry later

theorem get?_insert (key : String) (value : α) (entries : List (String × α)) (other : String) :
    get? other (insert key value entries) =
      if key = other then some value else get? other entries := by
  induction entries with
  | nil => simp [insert, get?]
  | cons head rest ih =>
    obtain ⟨k, v⟩ := head
    simp only [insert]
    split
    · simp [get?]
    · split
      · rename_i same
        subst same
        by_cases hit : key = other <;> simp [get?, hit]
      · rename_i different
        by_cases hit : k = other
        · subst hit
          simp [get?, different]
        · simp [get?, hit, ih]

theorem get?_eq_none_of_lt {key : String} {entries : List (String × α)}
    (above : ∀ entry ∈ entries, key < entry.1) : get? key entries = none := by
  induction entries with
  | nil => rfl
  | cons head rest ih =>
    have less := above head List.mem_cons_self
    have different : head.1 ≠ key := fun same => String.lt_irrefl _ (same ▸ less)
    simp only [get?, different, if_false]
    exact ih fun entry member => above entry (List.mem_cons_of_mem _ member)

theorem get?_filter_ne (key other : String) (entries : List (String × α)) :
    get? other (entries.filter fun entry => entry.1 ≠ key) =
      if key = other then none else get? other entries := by
  induction entries with
  | nil => simp [get?]
  | cons head rest ih =>
    obtain ⟨k, v⟩ := head
    by_cases dropped : k = key
    · subst dropped
      by_cases hit : k = other <;> simp_all [get?]
    · by_cases hit : k = other
      · subst hit
        simp [get?, dropped, Ne.symm dropped]
      · simp_all [get?]

theorem get?_map (f : String → α → β) (key : String) (entries : List (String × α)) :
    get? key (entries.map fun entry => (entry.1, f entry.1 entry.2)) =
      (get? key entries).map (f key) := by
  induction entries with
  | nil => rfl
  | cons head rest ih =>
    by_cases hit : head.1 = key
    · subst hit
      simp [get?]
    · simpa [get?, hit] using ih

theorem sorted_map (f : String → α → β) {entries : List (String × α)}
    (sorted : Sorted entries) : Sorted (entries.map fun entry => (entry.1, f entry.1 entry.2)) :=
  List.pairwise_map.mpr sorted

theorem eq_of_get? {left right : List (String × α)} (leftSorted : Sorted left)
    (rightSorted : Sorted right) (same : ∀ key, get? key left = get? key right) : left = right := by
  induction left generalizing right with
  | nil =>
    cases right with
    | nil => rfl
    | cons head rest => exact absurd (same head.1) (by simp [get?])
  | cons head rest ih =>
    obtain ⟨k, v⟩ := head
    have restAbove := (List.pairwise_cons.mp leftSorted).1
    cases right with
    | nil => exact absurd (same k) (by simp [get?])
    | cons other others =>
      obtain ⟨k', v'⟩ := other
      have othersAbove := (List.pairwise_cons.mp rightSorted).1
      have keys : k = k' := by
        refine Classical.byContradiction fun different => ?_
        by_cases less : k < k'
        · have absent : get? k ((k', v') :: others) = none := by
            refine get?_eq_none_of_lt fun entry member => ?_
            rcases List.mem_cons.mp member with hit | later
            · exact hit ▸ less
            · exact String.lt_trans less (othersAbove entry later)
          have present := same k
          rw [absent] at present
          simp [get?] at present
        · have greater := lt_of_not_lt_of_ne less different
          have absent : get? k' ((k, v) :: rest) = none := by
            refine get?_eq_none_of_lt fun entry member => ?_
            rcases List.mem_cons.mp member with hit | later
            · exact hit ▸ greater
            · exact String.lt_trans greater (restAbove entry later)
          have present := same k'
          rw [absent] at present
          simp [get?] at present
      subst keys
      have values : v = v' := by simpa [get?] using same k
      subst values
      refine congrArg ((k, v) :: ·) (ih (List.pairwise_cons.mp leftSorted).2
        (List.pairwise_cons.mp rightSorted).2 fun key => ?_)
      by_cases hit : k = key
      · subst hit
        rw [get?_eq_none_of_lt restAbove, get?_eq_none_of_lt othersAbove]
      · simpa [get?, hit] using same key

theorem get?_eq_some_iff {key : String} {value : α} {entries : List (String × α)}
    (sorted : Sorted entries) : get? key entries = some value ↔ (key, value) ∈ entries := by
  induction entries with
  | nil => simp [get?]
  | cons head rest ih =>
    obtain ⟨k, v⟩ := head
    have above := (List.pairwise_cons.mp sorted).1
    by_cases hit : k = key
    · subst hit
      have absent : (k, value) ∉ rest := fun member =>
        String.lt_irrefl k (above (k, value) member)
      simp [get?, absent, eq_comm]
    · simp [get?, hit, Ne.symm hit, ih (List.pairwise_cons.mp sorted).2]

end Entries

/-- A dictionary from text to `α`. -/
structure Dict (α : Type) where
  entries : List (String × α)
  sorted : Entries.Sorted entries := by decide
deriving DecidableEq

namespace Dict

@[ext]
theorem ext {left right : Dict α} (same : left.entries = right.entries) : left = right := by
  cases left
  cases right
  cases same
  rfl

def empty : Dict α := ⟨[], List.Pairwise.nil⟩

instance : EmptyCollection (Dict α) := ⟨empty⟩

instance : Inhabited (Dict α) := ⟨empty⟩

def get? (dict : Dict α) (key : String) : Option α :=
  Entries.get? key dict.entries

def contains (dict : Dict α) (key : String) : Bool :=
  (dict.get? key).isSome

def insert (dict : Dict α) (key : String) (value : α) : Dict α :=
  ⟨Entries.insert key value dict.entries, Entries.sorted_insert key value dict.sorted⟩

def erase (dict : Dict α) (key : String) : Dict α :=
  ⟨dict.entries.filter fun entry => entry.1 ≠ key, dict.sorted.sublist List.filter_sublist⟩

def map (dict : Dict α) (f : String → α → β) : Dict β :=
  ⟨dict.entries.map fun entry => (entry.1, f entry.1 entry.2),
    Entries.sorted_map f dict.sorted⟩

/-- Applies `f` to the value under `key`, if there is one. -/
def modify (dict : Dict α) (key : String) (f : α → α) : Dict α :=
  dict.map fun k value => if k = key then f value else value

def keys (dict : Dict α) : List String :=
  dict.entries.map Prod.fst

def size (dict : Dict α) : Nat :=
  dict.entries.length

/-- Collects `entries`; of several entries under one key the last one counts. -/
def ofList (entries : List (String × α)) : Dict α :=
  entries.foldr
    (fun entry dict => if dict.contains entry.1 then dict else dict.insert entry.1 entry.2) empty

@[simp]
theorem get?_empty (key : String) : (∅ : Dict α).get? key = none := rfl

theorem get?_insert (dict : Dict α) (key : String) (value : α) (other : String) :
    (dict.insert key value).get? other = if key = other then some value else dict.get? other :=
  Entries.get?_insert key value dict.entries other

@[simp]
theorem get?_insert_self (dict : Dict α) (key : String) (value : α) :
    (dict.insert key value).get? key = some value := by
  simp [get?_insert]

theorem get?_erase (dict : Dict α) (key other : String) :
    (dict.erase key).get? other = if key = other then none else dict.get? other :=
  Entries.get?_filter_ne key other dict.entries

@[simp]
theorem get?_map (dict : Dict α) (f : String → α → β) (key : String) :
    (dict.map f).get? key = (dict.get? key).map (f key) :=
  Entries.get?_map f key dict.entries

theorem get?_modify (dict : Dict α) (key : String) (f : α → α) (other : String) :
    (dict.modify key f).get? other =
      if other = key then (dict.get? other).map f else dict.get? other := by
  rw [modify, get?_map]
  split <;> simp_all

/-- A dictionary is determined by its lookups. -/
theorem ext_get? {left right : Dict α} (same : ∀ key, left.get? key = right.get? key) :
    left = right :=
  Dict.ext (Entries.eq_of_get? left.sorted right.sorted same)

theorem get?_eq_some_iff (dict : Dict α) (key : String) (value : α) :
    dict.get? key = some value ↔ (key, value) ∈ dict.entries :=
  Entries.get?_eq_some_iff dict.sorted

theorem contains_iff_mem_keys (dict : Dict α) (key : String) :
    dict.contains key = true ↔ key ∈ dict.keys := by
  simp only [contains, Option.isSome_iff_exists, get?_eq_some_iff, keys, List.mem_map,
    Prod.exists, exists_and_right, exists_eq_right]

@[simp]
theorem keys_modify (dict : Dict α) (key : String) (f : α → α) :
    (dict.modify key f).keys = dict.keys := by
  simp [modify, map, keys, Function.comp_def]

theorem get?_ofList_cons (key : String) (value : α) (entries : List (String × α))
    (other : String) :
    (ofList ((key, value) :: entries)).get? other =
      ((ofList entries).get? other).or (if key = other then some value else none) := by
  have unfolded : ofList ((key, value) :: entries) =
      if (ofList entries).contains key then ofList entries
      else (ofList entries).insert key value := rfl
  rw [unfolded]
  by_cases present : (ofList entries).contains key
  · simp only [present, if_true]
    by_cases hit : key = other
    · subst hit
      obtain ⟨found, lookup⟩ := Option.isSome_iff_exists.mp present
      simp [lookup]
    · simp [hit]
  · rw [if_neg present, get?_insert]
    by_cases hit : key = other
    · subst hit
      have absent : (ofList entries).get? key = none := by
        simpa [contains] using present
      simp [absent]
    · simp [hit]

end Dict

end BlockGraph
