import Reckon.Decimal.Order
import Reckon.Decimal.Rounding

/-!
# The larger and the smaller of two numbers

Either operand may be chosen, and the chosen one is rounded.  Equal numbers can be written
differently; of these the first is taken.
-/

namespace Reckon.Decimal

variable [Register]

/-- The larger of two numbers, rounded; the first when they are equal. -/
def larger (limits : Limits) (a b : Decimal) : Except ArithmeticFault Decimal :=
  if b.compare a = .gt then b.round limits else a.round limits

/-- The smaller of two numbers, rounded; the first when they are equal. -/
def smaller (limits : Limits) (a b : Decimal) : Except ArithmeticFault Decimal :=
  if b.compare a = .lt then b.round limits else a.round limits

end Reckon.Decimal
