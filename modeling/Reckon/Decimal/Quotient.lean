import Reckon.Decimal.Sum

/-!
# Quotients and means

Division of the coefficients is carried one digit further than the result can show.  A quotient
that comes out exactly gives back trailing zeros until its exponent is the difference of the
operands' exponents.  One that does not is marked: where its last digit is a zero or a five, so
that it could be taken for a half-way point, the digit is raised by one, and rounding sees that
more followed.

The mean of two numbers is half of their sum, so it goes through the same division and is rounded
once.
-/

namespace Reckon.Decimal

/-! ## Trailing zeros -/

/-- Takes at most `most` zeros off the end of `n`, and raises the exponent by one for each. -/
def stripZeros : (most n : Nat) → (exponent : Int) → Nat × Int
  | 0, n, exponent => (n, exponent)
  | most + 1, n, exponent =>
    if n % 10 = 0 then stripZeros most (n / 10) (exponent + 1) else (n, exponent)

/-! ## Division -/

variable [Register]

open Register

/-- Quotient and remainder of two magnitudes, the dividend first scaled by the power of ten of
exponent `shift`, or the divisor by that of its opposite. -/
def divShifted (shift : Int) (dividend divisor : Nat) : Nat × Nat :=
  if 0 ≤ shift then
    let scaled := dividend * pow10 shift
    (scaled / divisor, scaled % divisor)
  else
    let scaled := divisor * pow10 (wrap (-shift))
    (dividend / scaled, dividend % scaled)

/-- A number that rounds to `precision` digits as the quotient of two numbers other than zero
does, without its sign. -/
def divUnrounded (precision : Nat) (a b : Decimal) : Nat × Int :=
  let ideal := saturate (a.exponent - b.exponent)
  let shift := wrap (b.digits - a.digits + precision + 1)
  let (quotient, remainder) := divShifted shift a.coefficient.natAbs b.coefficient.natAbs
  let exponent := saturate (ideal - shift)
  if remainder = 0 then stripZeros (ideal - exponent).toNat quotient exponent
  else if quotient % 5 = 0 then (quotient + 1, exponent)
  else (quotient, exponent)

/-- The quotient, made to fit `precision` digits and exponents up to `maxExponent`. -/
def divTo (precision : Nat) (maxExponent : Int) (a b : Decimal) :
    Except ArithmeticFault Decimal :=
  if b.isZero then .error .divisionByZero
  else if a.isZero then
    (⟨0, saturate (a.exponent - b.exponent)⟩ : Decimal).roundTo precision maxExponent
  else
    let (quotient, exponent) := divUnrounded precision a b
    let coefficient : Int := if a.isNegative = b.isNegative then quotient else -quotient
    (⟨coefficient, exponent⟩ : Decimal).roundTo precision maxExponent

/-- The quotient, rounded. -/
def div (limits : Limits) (a b : Decimal) : Except ArithmeticFault Decimal :=
  divTo limits.precision limits.maxExponent a b

/-- The mean of two numbers, rounded. -/
def average (limits : Limits) (a b : Decimal) : Except ArithmeticFault Decimal :=
  divTo limits.precision limits.maxExponent (addUnrounded (limits.precision + 2) a b) (ofInt 2)

end Reckon.Decimal
