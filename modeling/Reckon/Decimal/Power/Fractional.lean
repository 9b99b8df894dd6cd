import Reckon.Decimal.Order
import Reckon.Decimal.Rounding
import Reckon.Decimal.Series

/-!
# Powers with fractional exponents

The power of a positive base is the exponential of the exponent times the base's logarithm.  The
product is taken apart into a whole number of logarithms of ten, which goes into the exponent of
the result, and a rest of at most half of one, whose exponential is the coefficient.  All of it is
done in fixed point, with places enough for the digits asked for, for the whole digits of the
product, and `guardPlaces` more.
-/

namespace Reckon.Decimal

variable [Register]

open Register

/-- The places that a fractional power is carried beyond those that its size asks for. -/
def guardPlaces : Nat := 12

/-- The places that the power of two decimals is worked out with. -/
def powPlaces (precision : Nat) (base exponent : Decimal) : Nat :=
  precision + guardPlaces +
    ((exponent.adjustedExponent + 1).toNat + digitCount base.adjustedExponent.natAbs + 1)

/-- The result that lies beyond the range: too large when the power grows, otherwise too small. -/
def powOutOfRange (grows : Bool) : Except ArithmeticFault Decimal :=
  if grows then .error .overflow else .ok .zero

/-- The power of a positive base other than one, by logarithm and exponential. -/
def powByLogarithm (limits : Limits) (grows : Bool) (base exponent : Decimal) :
    Except ArithmeticFault Decimal :=
  let places := powPlaces limits.precision base exponent
  let product := Series.shiftTo (Series.ln places base * exponent.coefficient) exponent.exponent
  let ln10 := Series.ln10 places
  let decade := divHalfEven product ln10
  if decade.natAbs ≤ limits.maxExponent + 2 then
    let mantissa := Series.exp places (product - decade * ln10)
    (⟨mantissa, wrap (decade - places)⟩ : Decimal).round limits
  else powOutOfRange grows

/-- The power of a positive base with a fractional exponent.  Where the exponent has more than
twenty-one digits before the point, the power of any base but one is taken to be out of range,
although that of a base very close to one may not be. -/
def powFractional (limits : Limits) (base exponent : Decimal) : Except ArithmeticFault Decimal :=
  match base.compare .one with
  | .eq => .ok .one
  | direction =>
    let grows := (direction == .gt) != exponent.isNegative
    if 20 < exponent.adjustedExponent then powOutOfRange grows
    else powByLogarithm limits grows base exponent

end Reckon.Decimal
