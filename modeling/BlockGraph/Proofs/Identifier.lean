import BlockGraph.Identifier
import Mathlib.Data.List.DropRight
import Mathlib.Data.List.Nodup
import Mathlib.Data.List.Perm.Subperm
import Mathlib.Data.List.Range

/-!
Generated identifiers are new: an identifier tells its number, whatever its stem, so among one more
candidates than there are taken identifiers one is free. The number of a new identifier is the least
one that is free, which is where a search that tries one number after the other ends.
-/

set_option autoImplicit false

namespace BlockGraph.Identifier

theorem repr_injective {first second : Nat} (same : first.repr = second.repr) :
    first = second := by
  have digits : Nat.toDigits 10 first = Nat.toDigits 10 second := by
    rw [← Nat.toList_repr, ← Nat.toList_repr, same]
  rw [← Nat.ofDigitChars_ten_toDigits (n := first), digits, Nat.ofDigitChars_ten_toDigits]

/-- The text behind the last underscore. -/
def ending (id : String) : List Char :=
  id.toList.rtakeWhile fun c => c ≠ '_'

theorem ending_make (stem : String) (number : Nat) :
    ending (make stem number) = number.repr.toList := by
  have digits : ∀ c ∈ number.repr.toList.reverse, decide (c ≠ '_') = true := by
    intro c member
    rw [List.mem_reverse, Nat.toList_repr] at member
    have isDigit := Nat.isDigit_of_mem_toDigits (by decide) (by decide) member
    apply decide_eq_true
    rintro rfl
    exact absurd isDigit (by decide)
  have spelled : (make stem number).toList.reverse =
      number.repr.toList.reverse ++ '_' :: stem.toList.reverse := by
    simp [make]
  rw [ending, List.rtakeWhile, spelled, List.takeWhile_append_of_pos digits,
    List.takeWhile_cons_of_neg (by decide), List.append_nil, List.reverse_reverse]

/-- Whatever the stems are, one identifier has one number. -/
theorem make_injective {firstStem secondStem : String} {first second : Nat}
    (same : make firstStem first = make secondStem second) : first = second := by
  have endings := congrArg ending same
  rw [ending_make, ending_make] at endings
  exact repr_injective (String.toList_inj.mp endings)

theorem lt_freshNumber (taken : List String) (stem : String) (counter : Nat) :
    counter < freshNumber taken stem counter := by
  simp only [freshNumber]
  omega

/-- The identifier of a fresh number is not taken. -/
theorem make_freshNumber_not_mem (taken : List String) (stem : String) (counter : Nat) :
    make stem (freshNumber taken stem counter) ∉ taken := by
  simp only [freshNumber]
  cases search : (List.range taken.length).find?
      fun k => make stem (counter + 1 + k) ∉ taken with
  | some offset => simpa using List.find?_some search
  | none =>
    -- All earlier candidates are taken and differ, so the taken identifiers are used up.
    intro clash
    let candidates := (List.range (taken.length + 1)).map fun k => make stem (counter + 1 + k)
    have distinct : candidates.Nodup := by
      refine List.Nodup.map (fun first second same => ?_) List.nodup_range
      have numbers := make_injective same
      omega
    have inside : ∀ id ∈ candidates, id ∈ taken := by
      intro id member
      obtain ⟨offset, bound, rfl⟩ := List.mem_map.mp member
      rcases Nat.lt_succ_iff_lt_or_eq.mp (List.mem_range.mp bound) with less | rfl
      · simpa using List.find?_eq_none.mp search offset (List.mem_range.mpr less)
      · exact clash
    have tooMany := (List.subperm_of_subset distinct inside).length_le
    simp only [candidates, List.length_map, List.length_range] at tooMany
    omega

/-- Numbers that a fresh one passes over are taken. -/
theorem make_mem_of_lt_freshNumber {taken : List String} {stem : String} {counter number : Nat}
    (above : counter < number) (below : number < freshNumber taken stem counter) :
    make stem number ∈ taken := by
  obtain ⟨offset, rfl⟩ : ∃ offset, number = counter + 1 + offset :=
    ⟨number - (counter + 1), by omega⟩
  simp only [freshNumber] at below
  cases search : (List.range taken.length).find? fun k => make stem (counter + 1 + k) ∉ taken with
  | none =>
    rw [search, Option.getD_none] at below
    have bound : offset < taken.length := by omega
    simpa using List.find?_eq_none.mp search offset (List.mem_range.mpr bound)
  | some found =>
    rw [search, Option.getD_some] at below
    simpa using (List.find?_range_eq_some.mp search).2.2 offset (by omega)

/-- The least number above the counter whose identifier is not in use. -/
structure LeastFree (used : String → Prop) (stem : String) (counter number : Nat) : Prop where
  above : counter < number
  free : ¬used (make stem number)
  passed : ∀ lower, counter < lower → lower < number → used (make stem lower)

/-- A search that ends: the number above the counter is tried, and where its identifier is in use the
search goes on from that number. -/
inductive Finds (used : String → Prop) (stem : String) : Nat → Nat → Prop
  | here {counter : Nat} (free : ¬used (make stem (counter + 1))) :
      Finds used stem counter (counter + 1)
  | further {counter number : Nat} (taken : used (make stem (counter + 1)))
      (later : Finds used stem (counter + 1) number) : Finds used stem counter number

variable {used : String → Prop} {stem : String} {counter number : Nat}

theorem leastFree_freshNumber {taken : List String} (same : ∀ id, used id ↔ id ∈ taken)
    (stem : String) (counter : Nat) :
    LeastFree used stem counter (freshNumber taken stem counter) where
  above := lt_freshNumber taken stem counter
  free isUsed := make_freshNumber_not_mem taken stem counter ((same _).mp isUsed)
  passed _ above below := (same _).mpr (make_mem_of_lt_freshNumber above below)

theorem Finds.leastFree (finds : Finds used stem counter number) :
    LeastFree used stem counter number := by
  induction finds with
  | @here counter free => exact ⟨Nat.lt_succ_self counter, free, fun lower _ _ => by omega⟩
  | @further counter number taken _ ih =>
    refine ⟨Nat.lt_of_succ_lt ih.above, ih.free, ?_⟩
    intro lower above below
    rcases Nat.eq_or_lt_of_le above with rfl | later
    · exact taken
    · exact ih.passed lower later below

theorem LeastFree.finds (least : LeastFree used stem counter number) :
    Finds used stem counter number := by
  obtain ⟨distance, rfl⟩ := Nat.exists_eq_add_of_lt least.above
  induction distance generalizing counter with
  | zero => exact .here least.free
  | succ distance ih =>
    have shifted : counter + (distance + 1) + 1 = counter + 1 + distance + 1 := by omega
    rw [shifted] at least ⊢
    refine .further (least.passed _ (by omega) (by omega)) (ih ⟨by omega, least.free, ?_⟩)
    intro lower above below
    exact least.passed lower (by omega) below

/-- The search ends, and the least free number is the only one that it can end with. -/
theorem LeastFree.finds_iff (least : LeastFree used stem counter number) {found : Nat} :
    Finds used stem counter found ↔ found = number := by
  refine ⟨fun finds => ?_, fun same => same ▸ least.finds⟩
  have other := finds.leastFree
  rcases Nat.lt_trichotomy found number with less | same | greater
  · exact absurd (least.passed found other.above less) other.free
  · exact same
  · exact absurd (other.passed number least.above greater) least.free

end BlockGraph.Identifier
