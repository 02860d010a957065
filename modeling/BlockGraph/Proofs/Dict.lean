import BlockGraph.Json.Value
import Mathlib.Data.List.Nodup
import Mathlib.Data.List.Perm.Basic

/-!
Dictionaries from lists of entries. A list without repeated keys is looked up entry by entry, and a
dictionary is rebuilt from its own entries.
-/

set_option autoImplicit false

namespace BlockGraph

variable {α β : Type}

namespace Entries

theorem get?_eq_none_iff {key : String} {entries : List (String × α)} :
    get? key entries = none ↔ key ∉ entries.map Prod.fst := by
  induction entries with
  | nil => simp [get?]
  | cons entry rest ih =>
    by_cases hit : entry.1 = key
    · simp [get?, hit]
    · simp [get?, hit, ih, Ne.symm hit]

theorem nodup_keys {entries : List (String × α)} (sorted : Sorted entries) :
    (entries.map Prod.fst).Nodup := by
  refine List.Pairwise.map Prod.fst (fun first second less => ?_) sorted
  exact String.ne_of_lt less

theorem get?_eq_some_iff_of_nodup {key : String} {value : α} {entries : List (String × α)}
    (distinct : (entries.map Prod.fst).Nodup) :
    get? key entries = some value ↔ (key, value) ∈ entries := by
  induction entries with
  | nil => simp [get?]
  | cons entry rest ih =>
    obtain ⟨k, v⟩ := entry
    have apart := List.nodup_cons.mp distinct
    by_cases hit : k = key
    · subst hit
      have absent : (k, value) ∉ rest := fun member =>
        apart.1 (List.mem_map.mpr ⟨(k, value), member, rfl⟩)
      simp [get?, absent, eq_comm]
    · simp [get?, hit, Ne.symm hit, ih apart.2]

end Entries

namespace Dict

theorem nodup_keys (dict : Dict α) : dict.keys.Nodup :=
  Entries.nodup_keys dict.sorted

theorem get?_ofList_eq_none {entries : List (String × α)} {key : String}
    (absent : key ∉ entries.map Prod.fst) : (ofList entries).get? key = none := by
  induction entries with
  | nil => rfl
  | cons entry rest ih =>
    simp only [List.map_cons, List.mem_cons, not_or] at absent
    rw [get?_ofList_cons, ih absent.2]
    simp [Ne.symm absent.1]

theorem mem_of_get?_ofList {entries : List (String × α)} {key : String} {value : α}
    (found : (ofList entries).get? key = some value) : (key, value) ∈ entries := by
  induction entries with
  | nil => cases found
  | cons entry rest ih =>
    rw [get?_ofList_cons] at found
    rcases Option.or_eq_some_iff.mp found with later | ⟨-, first⟩
    · exact List.mem_cons_of_mem _ (ih later)
    · split at first
      · rename_i hit
        rw [← hit, ← Option.some.inj first]
        exact List.mem_cons_self
      · cases first

/-- The last entry with a key is the one that counts. -/
theorem get?_ofList (entries : List (String × α)) (key : String) :
    (ofList entries).get? key =
      (entries.filter fun entry => entry.1 = key).getLast?.map Prod.snd := by
  induction entries with
  | nil => rfl
  | cons entry rest ih =>
    rw [get?_ofList_cons, ih, List.filter_cons]
    by_cases hit : entry.1 = key
    · rw [if_pos hit, if_pos (decide_eq_true hit), List.getLast?_cons]
      cases (rest.filter fun entry => entry.1 = key).getLast? <;> rfl
    · rw [if_neg hit, if_neg (by simpa using hit), Option.or_none]

theorem get?_ofList_of_nodup {entries : List (String × α)}
    (distinct : (entries.map Prod.fst).Nodup) (key : String) :
    (ofList entries).get? key = Entries.get? key entries := by
  induction entries with
  | nil => rfl
  | cons entry rest ih =>
    have keys := List.nodup_cons.mp distinct
    rw [get?_ofList_cons, Entries.get?]
    by_cases hit : entry.1 = key
    · rw [get?_ofList_eq_none (hit ▸ keys.1)]
      simp [hit]
    · rw [ih keys.2]
      simp [hit]

theorem get?_ofList_eq_some_iff {entries : List (String × α)}
    (distinct : (entries.map Prod.fst).Nodup) {key : String} {value : α} :
    (ofList entries).get? key = some value ↔ (key, value) ∈ entries := by
  rw [get?_ofList_of_nodup distinct]
  exact Entries.get?_eq_some_iff_of_nodup distinct

/-- The entries of a list without repeated keys are sorted by key. -/
theorem entries_ofList_perm {entries : List (String × α)}
    (distinct : (entries.map Prod.fst).Nodup) : (ofList entries).entries.Perm entries := by
  have sortedNodup := (Entries.nodup_keys (ofList entries).sorted).of_map
  apply (List.perm_ext_iff_of_nodup sortedNodup distinct.of_map).mpr
  rintro ⟨key, value⟩
  rw [← get?_eq_some_iff, get?_ofList_eq_some_iff distinct]

theorem ofList_entries (dict : Dict α) : ofList dict.entries = dict := by
  apply ext_get?
  intro key
  exact get?_ofList_of_nodup (Entries.nodup_keys dict.sorted) key

theorem ofList_eq_of_perm {first second : List (String × α)} (same : first.Perm second)
    (distinct : (second.map Prod.fst).Nodup) : ofList first = ofList second := by
  have distinctFirst := (same.map Prod.fst).nodup_iff.mpr distinct
  apply ext_get?
  intro key
  apply Option.ext
  intro value
  rw [get?_ofList_eq_some_iff distinctFirst, get?_ofList_eq_some_iff distinct]
  exact same.mem_iff

theorem get?_foldl_insert (dict : Dict α) {entries : List (String × α)}
    (distinct : (entries.map Prod.fst).Nodup) (key : String) :
    (entries.foldl (fun members (key, value) => members.insert key value) dict).get? key =
      (Entries.get? key entries).or (dict.get? key) := by
  induction entries generalizing dict with
  | nil => rfl
  | cons entry rest ih =>
    have apart := List.nodup_cons.mp distinct
    rw [List.foldl_cons, ih _ apart.2, get?_insert, Entries.get?]
    by_cases hit : entry.1 = key
    · have absent : Entries.get? key rest = none :=
        Entries.get?_eq_none_iff.mpr (hit ▸ apart.1)
      simp [hit, absent]
    · simp [hit]

/-- Dictionaries with the same keys list them alike. -/
theorem keys_eq_of_isSome {left : Dict α} {right : Dict β}
    (same : ∀ key, (left.get? key).isSome = (right.get? key).isSome) : left.keys = right.keys := by
  have units : (left.map fun _ _ => ()) = right.map fun _ _ => () := by
    apply ext_get?
    intro key
    rw [get?_map, get?_map]
    have present := same key
    cases found : left.get? key <;> cases found' : right.get? key <;> simp_all
  simpa [keys, map, Function.comp_def] using congrArg keys units

/-- Of two values under one key the last one counts. -/
theorem insert_insert (dict : Dict α) (key : String) (first second : α) :
    (dict.insert key first).insert key second = dict.insert key second := by
  apply ext_get?
  intro other
  rw [get?_insert, get?_insert, get?_insert]
  split <;> rfl

theorem keys_insert {dict : Dict α} {key : String} (known : dict.contains key = true) (value : α) :
    (dict.insert key value).keys = dict.keys := by
  apply keys_eq_of_isSome
  intro other
  rw [get?_insert]
  split
  · rename_i hit
    rw [← hit]
    exact known.symm
  · rfl

theorem get?_foldl_erase (dict : Dict α) (gone : List String) (key : String) :
    (gone.foldl erase dict).get? key = if key ∈ gone then none else dict.get? key := by
  induction gone generalizing dict with
  | nil => simp
  | cons head rest ih =>
    rw [List.foldl_cons, ih, get?_erase]
    by_cases hit : head = key
    · simp [hit]
    · simp [hit, Ne.symm hit]

end Dict

namespace Json

@[simp]
theorem members?_ofDict (members : Dict Json) : (ofDict members).members? = some members := by
  simp only [ofDict, members?, Dict.ofList_entries]

@[simp]
theorem get?_ofDict (members : Dict Json) (key : String) :
    (ofDict members).get? key = members.get? key := by
  rw [get?, members?_ofDict, Option.bind_some]

theorem get?_eq (value : Json) (key : String) :
    value.get? key = (value.members?.getD ∅).get? key := by
  rw [get?]
  cases value.members? <;> rfl

theorem text?_eq_some {value : Json} {text : String} (isText : value.text? = some text) :
    value = .text text := by
  cases value with
  | text other =>
    cases isText
    rfl
  | null | bool | number | array | object => cases isText

theorem bool?_eq_some {value : Json} {truth : Bool} (isBool : value.bool? = some truth) :
    value = .bool truth := by
  cases value with
  | bool other =>
    cases isBool
    rfl
  | null | text | number | array | object => cases isBool

@[simp]
theorem get?_ofMembers (members : List (String × Json)) (key : String) :
    (ofMembers members).get? key = (Dict.ofList members).get? key :=
  get?_ofDict _ key

end Json

end BlockGraph
