import BlockGraph.Binary64

/-!
The shortest decimal of a binary64 number: of all decimals that lie nearer to it than to any other
number of the format, those with the fewest digits, and of those the nearest, a tie going to the
even digit.
-/

set_option autoImplicit false

namespace BlockGraph

/-- The decimal `coefficient * 10 ^ exponent`. -/
structure Decimal where
  coefficient : Nat
  exponent : Int
deriving DecidableEq, Repr

namespace Decimal

/-- Positive values that round to one number: `value` and the two ends are over `denominator`. -/
structure Interval where
  low : Nat
  value : Nat
  high : Nat
  denominator : Nat
  endsIncluded : Bool

/-- Values that round to the magnitude of `x`. Below a power of two the gap is half as wide. -/
def Interval.of (x : Binary64) : Interval :=
  let narrow :=
    x.significand = Binary64.leastNormal ∧ Binary64.leastExponent < x.exponent
  -- In quarters of the gap, half of a gap and half of a narrow one are whole numbers.
  let scale := x.exponent - 2
  let unit := Nat.pow 2 scale.toNat
  { low := (4 * x.significand - if narrow then 1 else 2) * unit
    value := 4 * x.significand * unit
    high := (4 * x.significand + 2) * unit
    denominator := Nat.pow 2 (-scale).toNat
    endsIncluded := x.significand % 2 = 0 }

def digitCount (n : Nat) : Nat :=
  (Nat.toDigits 10 n).length

/-- The exponent `e` with `10 ^ e ≤ numerator / denominator < 10 ^ (e + 1)`, for a positive
quotient. -/
def leadingExponent (numerator denominator : Nat) : Int :=
  let guess := (digitCount numerator : Int) - digitCount denominator
  let reached :=
    if guess < 0 then denominator ≤ numerator * Nat.pow 10 (-guess).toNat
    else denominator * Nat.pow 10 guess.toNat ≤ numerator
  if reached then guess else guess - 1

/-- Drops final zeros of the coefficient. -/
def dropZeros (coefficient : Nat) (exponent : Int) : Decimal :=
  if h : coefficient ≠ 0 ∧ coefficient % 10 = 0 then dropZeros (coefficient / 10) (exponent + 1)
  else ⟨coefficient, exponent⟩
termination_by coefficient
decreasing_by omega

/-- The nearer of the two neighbours of the value among the multiples of `10 ^ exponent`, if one
lies in the interval. -/
def Interval.onGrid (interval : Interval) (exponent : Int) : Option Decimal :=
  let grid := if exponent < 0 then 1 else Nat.pow 10 exponent.toNat
  let spread := if exponent < 0 then Nat.pow 10 (-exponent).toNat else 1
  let value := interval.value * spread
  let unit := interval.denominator * grid
  let inside (coefficient : Nat) : Bool :=
    let point := coefficient * unit
    let low := interval.low * spread
    let high := interval.high * spread
    if interval.endsIncluded then low ≤ point && point ≤ high else low < point && point < high
  let below := value / unit
  let nearerAbove := 2 * (value % unit) > unit ∨ (2 * (value % unit) = unit ∧ below % 2 = 1)
  let (first, second) := if nearerAbove then (below + 1, below) else (below, below + 1)
  if inside first then some (dropZeros first exponent)
  else if inside second then some (dropZeros second exponent)
  else none

/-- Seventeen digits always tell two numbers apart. -/
def mostDigits : Nat := 17

/-- The shortest decimal of the magnitude of `x`. -/
def shortest (x : Binary64) : Decimal :=
  if x.significand = 0 then ⟨0, 0⟩
  else
    let interval := Interval.of x
    let leading := leadingExponent interval.value interval.denominator
    let grids := (List.range mostDigits).map fun (digits : Nat) => leading - digits
    (grids.findSome? interval.onGrid).getD ⟨0, 0⟩

end Decimal

end BlockGraph
