import BlockGraph.Decimal.Shortest

/-!
Text of decimals. A layout says for which exponents of the leading digit the digits are written out
around a point; all other numbers take a signed exponent after the digits.
-/

set_option autoImplicit false

namespace BlockGraph.Decimal

structure Layout where
  leastPositional : Int
  greatestPositional : Int

def zeros (count : Nat) : String :=
  String.ofList (List.replicate count '0')

/-- Digits around a point, with at least one digit on each side. -/
def positional (digits : List Char) (leading : Int) : String :=
  if leading < 0 then "0." ++ zeros ((-leading).toNat - 1) ++ String.ofList digits
  else
    let whole := leading.toNat + 1
    if digits.length ≤ whole then
      String.ofList digits ++ zeros (whole - digits.length) ++ ".0"
    else String.ofList (digits.take whole) ++ "." ++ String.ofList (digits.drop whole)

/-- One digit, the others behind a point, and the exponent with its sign. -/
def scientific (digits : List Char) (leading : Int) : String :=
  let fraction := digits.drop 1
  let mantissa :=
    if fraction.isEmpty then String.ofList digits
    else String.ofList (digits.take 1) ++ "." ++ String.ofList fraction
  let sign := if leading < 0 then "-" else "+"
  mantissa ++ "e" ++ sign ++ leading.natAbs.repr

def Layout.render (layout : Layout) (decimal : Decimal) : String :=
  let digits := Nat.toDigits 10 decimal.coefficient
  let leading := decimal.exponent + digits.length - 1
  if layout.leastPositional ≤ leading ∧ leading ≤ layout.greatestPositional then
    positional digits leading
  else scientific digits leading

/-- Text of a number through its shortest decimal; negative zero keeps its sign. -/
def Layout.number (layout : Layout) (x : Binary64) : String :=
  (if x.negative then "-" else "") ++ layout.render (shortest x)

end BlockGraph.Decimal
