import BlockGraph.Text.Blank
import BlockGraph.Text.Quoted
import Mathlib.Data.List.Basic

/-!
Rows of a text. Taking a text apart at newlines gives its rows; joining lines with newlines keeps the
rows of each. What has no newline is one row, and stays one when it is trimmed, quoted or joined.
-/

set_option autoImplicit false

namespace BlockGraph

namespace Text

/-- The rows that a reader sees. -/
def rows (text : String) : List (List Char) :=
  text.toList.splitOn '\n'

/-- Text without a newline. -/
def OneRow (text : String) : Prop :=
  '\n' ∉ text.toList

theorem oneRow_of_bytes {text : String} (absent : (10 : UInt8) ∉ text.toByteArray.data.toList) :
    OneRow text := by
  intro member
  rw [← String.ofList_toList (s := text)] at absent
  apply absent
  have encoded : (String.ofList text.toList).toByteArray.data.toList =
      text.toList.flatMap String.utf8EncodeChar := by
    simp [String.ofList, List.utf8Encode]
  rw [encoded]
  exact List.mem_flatMap.mpr ⟨'\n', member, by decide⟩

-- A newline has a byte of its own, and bytes are at hand without decoding the text.
instance (text : String) : Decidable (OneRow text) :=
  if absent : (10 : UInt8) ∉ text.toByteArray.data.toList then isTrue (oneRow_of_bytes absent)
  else inferInstanceAs (Decidable ('\n' ∉ text.toList))

@[simp]
theorem oneRow_append (front back : String) :
    OneRow (front ++ back) ↔ OneRow front ∧ OneRow back := by
  simp [OneRow]

theorem oneRow_intercalate {gap : String} {parts : List String} (oneGap : OneRow gap)
    (oneParts : ∀ part ∈ parts, OneRow part) : OneRow (gap.intercalate parts) := by
  induction parts with
  | nil => simp [OneRow]
  | cons first rest ih =>
    have oneFirst := oneParts first List.mem_cons_self
    have oneRest := ih fun part member => oneParts part (List.mem_cons_of_mem _ member)
    cases rest with
    | nil => simpa using oneFirst
    | cons second rest =>
      rw [String.intercalate_cons_cons]
      simp [oneFirst, oneGap, oneRest]

theorem oneRow_repr (number : Nat) : OneRow number.repr := by
  intro member
  rw [Nat.toList_repr] at member
  have digit := Nat.isDigit_of_mem_toDigits (by decide) (by decide) member
  exact absurd digit (by decide)

theorem oneRow_trim {text : String} (oneRow : OneRow text) : OneRow (trim text) := by
  intro member
  rw [trim, String.toList_ofList, List.mem_reverse] at member
  have inside := (List.dropWhile_sublist _).mem member
  rw [List.mem_reverse] at inside
  exact oneRow ((List.dropWhile_sublist _).mem inside)

theorem mem_of_mem_escapeQuotes {c : Char} (plain : c ≠ '\\') {text : List Char}
    (member : c ∈ escapeQuotes text) : c ∈ text := by
  induction text with
  | nil => exact member
  | cons first rest ih =>
    rw [escapeQuotes] at member
    split at member <;> simp only [List.mem_cons, plain, false_or] at member <;>
      exact List.mem_cons.mpr (member.imp id ih)

theorem oneRow_quote {text : String} (oneRow : OneRow text) : OneRow (quote text) := by
  intro member
  rw [quote, String.toList_ofList] at member
  have inside : '\n' ∈ escapeQuotes text.toList := by simpa using member
  exact oneRow (mem_of_mem_escapeQuotes (by decide) inside)

theorem rows_of_oneRow {text : String} (oneRow : OneRow text) : rows text = [text.toList] := by
  apply List.splitOnP_eq_singleton
  intro c member
  have different : c ≠ '\n' := fun same => oneRow (same ▸ member)
  simpa using different

/-- What has no newline goes in front of the first row. -/
theorem rows_append {front : String} (oneRow : OneRow front) (text : String) :
    rows (front ++ text) = (rows text).modifyHead (front.toList ++ ·) := by
  unfold OneRow at oneRow
  rw [rows, rows, String.toList_append]
  generalize front.toList = chars at oneRow
  induction chars with
  | nil => exact (congrFun List.modifyHead_id _).symm
  | cons c rest ih =>
    have different : (c == '\n') = false := by
      simpa using fun same : c = '\n' => oneRow (same ▸ List.mem_cons_self)
    have later := ih fun member => oneRow (List.mem_cons_of_mem c member)
    rw [List.splitOn_eq_splitOnP] at later ⊢
    rw [List.cons_append, List.splitOnP_cons_eq_if_modifyHead, different, if_neg (by decide), later,
      List.modifyHead_modifyHead]
    rfl

/-- Lines that are joined keep their rows. -/
theorem rows_intercalate (first : String) (rest : List String) :
    rows ("\n".intercalate (first :: rest)) = (first :: rest).flatMap rows := by
  induction rest generalizing first with
  | nil => simp
  | cons second rest ih =>
    rw [List.flatMap_cons, ← ih second, String.intercalate_cons_cons, rows, rows, rows,
      String.toList_append, String.toList_append, List.append_assoc, List.splitOn_eq_splitOnP]
    exact List.splitOnP_append_cons _ _ (by decide)

end Text

end BlockGraph
