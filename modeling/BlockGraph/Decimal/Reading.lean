import BlockGraph.Binary64

/-!
The number that a written decimal stands for. Reading keeps the leading digits that fit in a word,
takes the nearest number to them, and scales it by the nearest number to a power of ten, so a long
decimal is rounded twice. Only powers up to `greatestPower` are used; a smaller decimal is scaled
down in several steps.
-/

set_option autoImplicit false

namespace BlockGraph.Decimal

/-- Largest whole number the digits may reach before further ones are left out. -/
def significandLimit : Nat := 0xffffffffffffffff

def greatestPower : Nat := 308

/-- The nearest number to a power of ten. -/
def powerOfTen (power : Nat) : Binary64 :=
  (Binary64.ofRatio false (Nat.pow 10 power) 1).getD Binary64.zero

def scaleDown (x : Binary64) (power : Nat) : Binary64 :=
  if greatestPower < power then
    if x.isZero then x
    else scaleDown ((x.div (powerOfTen greatestPower)).getD x) (power - greatestPower)
  else (x.div (powerOfTen power)).getD x
termination_by power
decreasing_by
  have positive : 0 < greatestPower := by decide
  omega

/-- The number `significand * 10 ^ exponent`, unless it is too large. -/
def toBinary64? (significand : Nat) (exponent : Int) : Option Binary64 :=
  let start := Binary64.ofInt significand
  if exponent < 0 then some (scaleDown start exponent.natAbs)
  else if greatestPower < exponent.toNat then if start.isZero then some start else none
  else start.mul (powerOfTen exponent.toNat)

end BlockGraph.Decimal
