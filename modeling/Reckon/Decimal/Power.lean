import Reckon.Decimal.Power.Integral
import Reckon.Decimal.Power.Fractional

/-!
# Powers

The exponent decides first, then the base: with the exponent zero every power is one, but that of
zero is undefined; zero has no power with a negative exponent; and a negative base has powers with
whole exponents only.
-/

namespace Reckon.Decimal

variable [Register]

/-- The power, rounded. -/
def pow (limits : Limits) (base exponent : Decimal) : Except ArithmeticFault Decimal :=
  if exponent.isZero then
    if base.isZero then .error .undefined else .ok .one
  else if base.isZero then
    if exponent.isNegative then .error .divisionByZero else .ok .zero
  else if exponent.isInteger then powIntegral limits base exponent
  else if base.isNegative then .error .undefined
  else powFractional limits base exponent

end Reckon.Decimal
