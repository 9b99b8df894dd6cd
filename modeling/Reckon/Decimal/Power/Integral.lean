import Reckon.Decimal.Order
import Reckon.Decimal.Product
import Reckon.Decimal.Quotient

/-!
# Powers with whole exponents

The magnitude of the exponent is worked off by squaring: the power is the square of the power with
half the exponent, times the base once more where the exponent is odd.  Enough digits are carried
besides those asked for that the roundings on the way do not show.  A negative exponent takes the
reciprocal at the end, and then a power that is too large gives zero, and one that is too small to
be held gives no result.

Exponents of more than twenty digits are not worked off.  One and minus one keep their magnitude,
and the power of any other base is taken to lie outside the range, although that of a base very
close to one may not.
-/

namespace Reckon.Decimal

variable [Register]

/-- The base times itself, `power` times, each product made to fit. -/
def powBySquaring (precision : Nat) (maxExponent : Int) (base : Decimal) (power : Nat) :
    Except ArithmeticFault Decimal :=
  if power = 0 then .ok .one
  else do
    let half ← powBySquaring precision maxExponent base (power / 2)
    let square ← mulTo precision maxExponent half half
    if power % 2 = 0 then pure square else mulTo precision maxExponent square base
termination_by power

/-- Whether a whole exponent is odd.  One that is scaled up by a power of ten is even. -/
def isOdd (exponent : Decimal) : Bool :=
  if 0 < exponent.exponent then false
  else
    match exponent.toInteger? with
    | some n => n % 2 != 0
    | none => false

/-- The power with an exponent of more than twenty digits. -/
def powHuge (base exponent : Decimal) : Except ArithmeticFault Decimal :=
  match base.abs.compare .one, exponent.isNegative with
  | .eq, _ => .ok (if base.isNegative && exponent.isOdd then -.one else .one)
  | .gt, false | .lt, true => .error .overflow
  | .gt, true | .lt, false => .ok .zero

/-- The digits carried in a power, when its result keeps `precision` of them. -/
def powDigits (precision : Nat) (power : Int) : Nat := precision + digitCount power.natAbs + 2

/-- The power with the whole exponent `power`. -/
def powInt (limits : Limits) (base : Decimal) (power : Int) : Except ArithmeticFault Decimal :=
  let digits := powDigits limits.precision power
  let powered := powBySquaring digits limits.maxExponent base power.natAbs
  if 0 ≤ power then powered.bind (·.round limits)
  else
    match powered with
    | .error .overflow => .ok .zero
    | .error fault => .error fault
    | .ok result => if result.isZero then .error .overflow else div limits .one result

/-- The power of a base other than zero with a whole exponent. -/
def powIntegral (limits : Limits) (base exponent : Decimal) : Except ArithmeticFault Decimal :=
  if 20 ≤ exponent.adjustedExponent then powHuge base exponent
  else
    match exponent.toInteger? with
    | some power => powInt limits base power
    | none => .error .undefined

end Reckon.Decimal
