import Reckon.Decimal.Order
import Reckon.Decimal.Rounding

/-!
# Sums and differences

A sum is formed exactly and rounded once.  Only where the smaller operand lies wholly below the
digits that rounding can see is it replaced by a single digit of the same sign far enough down:
the stand-in moves the sum off a half-way point just as the operand would, and the gap between the
exponents need not be written out in zeros.
-/

namespace Reckon.Decimal

variable [Register]

open Register

/-- The sum of a zero and another number: that number with the smaller of the two exponents, as
far as `precision` digits can show it. -/
def addZero (precision : Nat) (zero value : Decimal) : Decimal :=
  let shared := min zero.exponent value.exponent
  value.rescale (if value.isZero then shared
    else max shared (wrap (value.exponent - precision - 1)))

/-- The exponent below which nothing can be seen of an operand that is added to `large`, when the
sum is rounded to `precision` digits. -/
def visibleFloor (precision : Nat) (large : Decimal) : Int :=
  wrap (large.exponent + min (-1) (wrap (large.digits - precision - 2)))

/-- The operand itself, or one digit of its sign at `floor` when its leading digit lies below. -/
def standIn (floor : Int) (small : Decimal) : Decimal :=
  if small.adjustedExponent < floor then ⟨small.coefficient.sign, floor⟩ else small

/-- The sum of two operands at the smaller of their exponents. -/
def addAligned (a b : Decimal) : Decimal :=
  let exponent := min a.exponent b.exponent
  ⟨(a.rescale exponent).coefficient + (b.rescale exponent).coefficient, exponent⟩

/-- A number that rounds to `precision` digits as the sum does. -/
def addUnrounded (precision : Nat) (a b : Decimal) : Decimal :=
  if a.isZero then addZero precision a b
  else if b.isZero then addZero precision b a
  else
    let (large, small) := if b.exponent ≤ a.exponent then (a, b) else (b, a)
    addAligned large (small.standIn (visibleFloor precision large))

/-- The sum, rounded. -/
def add (limits : Limits) (a b : Decimal) : Except ArithmeticFault Decimal :=
  (addUnrounded limits.precision a b).round limits

/-- The difference, rounded. -/
def sub (limits : Limits) (a b : Decimal) : Except ArithmeticFault Decimal :=
  add limits a (-b)

end Reckon.Decimal
