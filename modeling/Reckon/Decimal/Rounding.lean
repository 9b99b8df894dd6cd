import Reckon.Decimal.Basic
import Reckon.Integer.HalfEven
import Reckon.Limits

/-!
# Rounding

Every result is made to fit: it keeps a number of significant digits, the last one rounded to the
nearest and in doubt to the even, and its leading digit has an exponent within the range.  Above
the range there is no result (`ArithmeticFault.overflow`), below it the result is zero.

`roundTo` takes the digits and the range by themselves, because intermediate results carry more
digits than the final one; `round` takes them from the limits.
-/

namespace Reckon

/-- Why an operation has no result. -/
inductive ArithmeticFault where
  /-- The divisor is zero. -/
  | divisionByZero
  /-- The result lies above the exponent range. -/
  | overflow
  /-- The operation has no value at its operands. -/
  | undefined
  deriving DecidableEq

/-- The wording of an operation without result. -/
def ArithmeticFault.message : ArithmeticFault → String
  | divisionByZero => "division by zero"
  | overflow => "result exceeds the exponent range"
  | undefined => "undefined result"

namespace Decimal

variable [Register]

open Register

/-- The number with at most `precision` significant digits.  Rounding up may carry into a new
digit, which leaves a zero at the end to be dropped. -/
def keepDigits (precision : Nat) (d : Decimal) : Decimal :=
  let excess := wrap (d.digits - precision)
  if excess ≤ 0 then d
  else
    let rounded : Decimal :=
      ⟨divHalfEven d.coefficient (pow10 excess), saturate (d.exponent + excess)⟩
    if rounded.digits ≤ precision then rounded
    else ⟨rounded.coefficient.tdiv 10, saturate (rounded.exponent + 1)⟩

/-- The number made to fit `precision` digits and exponents up to `maxExponent`.  A zero keeps its
exponent as far as the range allows. -/
def roundTo (precision : Nat) (maxExponent : Int) (d : Decimal) :
    Except ArithmeticFault Decimal :=
  if d.isZero then
    let least := wrap (-maxExponent - precision + 1)
    .ok ⟨0, max least (min d.exponent maxExponent)⟩
  else
    let rounded := d.keepDigits precision
    let adjusted := rounded.adjustedExponent
    if maxExponent < adjusted then .error .overflow
    else if adjusted < wrap (-maxExponent) then .ok .zero
    else .ok rounded

/-- The number made to fit the limits. -/
def round (limits : Limits) (d : Decimal) : Except ArithmeticFault Decimal :=
  d.roundTo limits.precision limits.maxExponent

end Decimal

end Reckon
