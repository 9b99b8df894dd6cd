import Reckon.Decimal.Rounding
import Reckon.Integer.PowMod

/-!
# Remainders

The remainder belongs to the quotient cut off toward zero, so it has the sign of the dividend.  It
is exact before it is rounded: a dividend with the larger exponent is scaled modulo the divisor,
and one that has fewer digits than the divisor has zeros to be written out is its own remainder.
-/

namespace Reckon.Decimal

variable [Register]

open Register

/-- The magnitude of the remainder, at the smaller of the two exponents. -/
def remMagnitude (a b : Decimal) : Nat :=
  let exponent := min a.exponent b.exponent
  let dividend := a.coefficient.natAbs
  let divisor := b.coefficient.natAbs
  if b.exponent ≤ a.exponent then
    dividend * powMod 10 (wrap (a.exponent - exponent)).toNat divisor % divisor
  else
    let gap := wrap (b.exponent - exponent)
    if a.digits < gap then dividend else dividend % (divisor * pow10 gap)

/-- The remainder, rounded. -/
def rem (limits : Limits) (a b : Decimal) : Except ArithmeticFault Decimal :=
  if b.isZero then .error .divisionByZero
  else
    let magnitude : Int := remMagnitude a b
    let remainder := if a.isNegative then -magnitude else magnitude
    (⟨remainder, min a.exponent b.exponent⟩ : Decimal).round limits

end Reckon.Decimal
