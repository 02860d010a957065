/-!
Finite binary64 numbers: a sign and `significand * 2 ^ exponent`, where the significand has 53 bits
unless the exponent is the least one. Each operation takes the exact result, as a quotient of
integers, and rounds it once to the nearest number, a tie to the even significand. A result beyond
the largest number is `none`.
-/

set_option autoImplicit false

namespace BlockGraph

structure Binary64 where
  negative : Bool
  significand : Nat
  exponent : Int
deriving DecidableEq, Repr

namespace Binary64

/-- Significands are below two to this power. -/
def precision : Nat := 53

/-- Least significand that has all its bits. -/
def leastNormal : Nat := Nat.pow 2 (precision - 1)

def leastExponent : Int := -1074

def greatestExponent : Int := 971

def zero : Binary64 := ⟨false, 0, leastExponent⟩

instance : Inhabited Binary64 := ⟨zero⟩

/-- The quotient `numerator / denominator / 2 ^ exponent`, as two integers. -/
def scaled (numerator denominator : Nat) (exponent : Int) : Nat × Nat :=
  if exponent < 0 then (numerator * Nat.pow 2 (-exponent).toNat, denominator)
  else (numerator, denominator * Nat.pow 2 exponent.toNat)

/-- Exponent at which the integer part of a positive quotient has `precision` bits. -/
def leadingExponent (numerator denominator : Nat) : Int :=
  let guess := (numerator.log2 : Int) - denominator.log2 - (precision - 1)
  let (above, below) := scaled numerator denominator guess
  if above < below * leastNormal then guess - 1 else guess

/-- Nearest integer to a quotient, a tie going to the even one. -/
def roundHalfEven (numerator denominator : Nat) : Nat :=
  let floor := numerator / denominator
  let double := 2 * (numerator % denominator)
  if double < denominator then floor
  else if denominator < double then floor + 1
  else if floor % 2 = 0 then floor else floor + 1

/-- Nearest number to plus or minus `numerator / denominator`. -/
def ofRatio (negative : Bool) (numerator denominator : Nat) : Option Binary64 :=
  if numerator = 0 then some ⟨negative, 0, leastExponent⟩
  else
    let exponent := max (leadingExponent numerator denominator) leastExponent
    let (above, below) := scaled numerator denominator exponent
    let significand := roundHalfEven above below
    let carried := significand = 2 * leastNormal
    let exponent := if carried then exponent + 1 else exponent
    if greatestExponent < exponent then none
    else some ⟨negative, if carried then leastNormal else significand, exponent⟩

/-- Numerator of the magnitude, over `denominator`. -/
def numerator (x : Binary64) : Nat :=
  x.significand * Nat.pow 2 x.exponent.toNat

def denominator (x : Binary64) : Nat :=
  Nat.pow 2 (-x.exponent).toNat

/-- Numerator with the sign of the number. -/
def signedNumerator (x : Binary64) : Int :=
  if x.negative then -x.numerator else x.numerator

/-- Whole numbers of up to 64 bits are never too large. -/
def ofInt (n : Int) : Binary64 :=
  (ofRatio (n < 0) n.natAbs 1).getD zero

def isZero (x : Binary64) : Bool :=
  x.significand == 0

def neg (x : Binary64) : Binary64 :=
  { x with negative := !x.negative }

def mul (x y : Binary64) : Option Binary64 :=
  ofRatio (x.negative != y.negative) (x.numerator * y.numerator) (x.denominator * y.denominator)

/-- Quotient by a number other than zero. -/
def div (x y : Binary64) : Option Binary64 :=
  ofRatio (x.negative != y.negative) (x.numerator * y.denominator) (x.denominator * y.numerator)

/-- A sum that cancels is positive zero; two negative zeros add up to negative zero. -/
def add (x y : Binary64) : Option Binary64 :=
  let sum := x.signedNumerator * y.denominator + y.signedNumerator * x.denominator
  if sum = 0 then some ⟨x.negative && y.negative, 0, leastExponent⟩
  else ofRatio (sum < 0) sum.natAbs (x.denominator * y.denominator)

def sub (x y : Binary64) : Option Binary64 :=
  x.add y.neg

/-- Order of the values; the two zeros are equal in it. -/
def le (x y : Binary64) : Bool :=
  x.signedNumerator * y.denominator ≤ y.signedNumerator * x.denominator

def max (x y : Binary64) : Binary64 :=
  if x.le y then y else x

/-- Nearest integer, a half going away from zero. -/
def round (x : Binary64) : Int :=
  let magnitude : Nat := (2 * x.numerator + x.denominator) / (2 * x.denominator)
  if x.negative then -magnitude else magnitude

end Binary64

end BlockGraph
