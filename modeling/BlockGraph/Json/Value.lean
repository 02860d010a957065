import BlockGraph.Dict
import BlockGraph.Binary64

/-!
JSON values. Whole numbers that fit in a signed or an unsigned word are kept apart from all others,
which are binary64 numbers. The members of an object are read as a dictionary, so their order in a
text has no meaning and a later member replaces an earlier one of the same key.
-/

set_option autoImplicit false

namespace BlockGraph

namespace Json

inductive Number where
  | whole (n : Int)
  | real (x : Binary64)
deriving DecidableEq, Repr

end Json

inductive Json where
  | null
  | bool (value : Bool)
  | number (value : Json.Number)
  | text (value : String)
  | array (items : List Json)
  | object (members : List (String × Json))
deriving Inhabited

namespace Json

mutual

def decEq : (left right : Json) → Decidable (left = right)
  | .null, .null => isTrue rfl
  | .bool a, .bool b => decidable_of_iff (a = b) (by simp)
  | .number a, .number b => decidable_of_iff (a = b) (by simp)
  | .text a, .text b => decidable_of_iff (a = b) (by simp)
  | .array a, .array b =>
    match decEqItems a b with
    | isTrue same => isTrue (congrArg _ same)
    | isFalse different => isFalse fun equal => different (by injection equal)
  | .object a, .object b =>
    match decEqMembers a b with
    | isTrue same => isTrue (congrArg _ same)
    | isFalse different => isFalse fun equal => different (by injection equal)
  | .null, .bool _ | .null, .number _ | .null, .text _ | .null, .array _ | .null, .object _
  | .bool _, .null | .bool _, .number _ | .bool _, .text _ | .bool _, .array _ | .bool _, .object _
  | .number _, .null | .number _, .bool _ | .number _, .text _ | .number _, .array _
  | .number _, .object _
  | .text _, .null | .text _, .bool _ | .text _, .number _ | .text _, .array _ | .text _, .object _
  | .array _, .null | .array _, .bool _ | .array _, .number _ | .array _, .text _
  | .array _, .object _
  | .object _, .null | .object _, .bool _ | .object _, .number _ | .object _, .text _
  | .object _, .array _ => isFalse (by simp)

def decEqItems : (left right : List Json) → Decidable (left = right)
  | [], [] => isTrue rfl
  | [], _ :: _ => isFalse (by simp)
  | _ :: _, [] => isFalse (by simp)
  | a :: as, b :: bs =>
    match decEq a b, decEqItems as bs with
    | isTrue head, isTrue tail => isTrue (by rw [head, tail])
    | isFalse different, _ => isFalse fun equal => different (by injection equal)
    | _, isFalse different => isFalse fun equal => different (by injection equal)

def decEqMembers : (left right : List (String × Json)) → Decidable (left = right)
  | [], [] => isTrue rfl
  | [], _ :: _ => isFalse (by simp)
  | _ :: _, [] => isFalse (by simp)
  | (k, a) :: as, (l, b) :: bs =>
    if key : k = l then
      match decEq a b, decEqMembers as bs with
      | isTrue head, isTrue tail => isTrue (by rw [key, head, tail])
      | isFalse different, _ => isFalse (by simp [different])
      | _, isFalse different => isFalse (by simp [different])
    else isFalse (by simp [key])

end

instance : DecidableEq Json := decEq

/-- The object with the members of a dictionary. -/
def ofDict (members : Dict Json) : Json :=
  .object members.entries

def ofMembers (members : List (String × Json)) : Json :=
  ofDict (Dict.ofList members)

def ofNat (n : Nat) : Json :=
  .number (.whole n)

def ofBinary64 (x : Binary64) : Json :=
  .number (.real x)

/-- `null` when there is nothing. -/
def ofOption {α : Type} (encode : α → Json) : Option α → Json
  | none => .null
  | some value => encode value

def ofText? (value : Option String) : Json :=
  ofOption .text value

def ofTexts (values : List String) : Json :=
  .array (values.map .text)

/-- Members of an object as a dictionary. -/
def members? : Json → Option (Dict Json)
  | .object members => some (Dict.ofList members)
  | _ => none

def items? : Json → Option (List Json)
  | .array items => some items
  | _ => none

def text? : Json → Option String
  | .text value => some value
  | _ => none

def bool? : Json → Option Bool
  | .bool value => some value
  | _ => none

/-- A whole number of the value's own; a number with a point or an exponent is never one. -/
def whole? : Json → Option Int
  | .number (.whole n) => some n
  | _ => none

/-- A signed word goes from minus this number up to the number before it. -/
def signedBound : Nat := 0x8000000000000000

/-- A whole number that a signed word holds. -/
def signedWord? (value : Json) : Option Int :=
  value.whole?.filter fun n => n < signedBound

/-- A whole number that is not negative. -/
def nat? (value : Json) : Option Nat :=
  value.whole?.bind fun n => if n < 0 then none else some n.toNat

/-- Any number, rounded to binary64. -/
def binary64? : Json → Option Binary64
  | .number (.whole n) => some (Binary64.ofInt n)
  | .number (.real x) => some x
  | _ => none

def get? (value : Json) (key : String) : Option Json :=
  value.members?.bind fun members => members.get? key

def textAt? (value : Json) (key : String) : Option String :=
  (value.get? key).bind text?

end Json

end BlockGraph
