import Reckon.Decimal.Basic

/-!
# Numeric order

Two decimals are compared as numbers.  The signs decide first, then the exponents of the leading
digits; only numbers that agree in both are brought to a common exponent and compared digit by
digit, so numbers of very different size are never written out.
-/

namespace Reckon.Decimal

variable [Register]

open Register

/-- The same number with a smaller exponent, or an equal one. -/
def rescale (exponent : Int) (d : Decimal) : Decimal :=
  ⟨d.coefficient * pow10 (wrap (d.exponent - exponent)), exponent⟩

/-- The order of the numbers that two decimals of one sign are without it. -/
def compareMagnitude (a b : Decimal) : Ordering :=
  match compare a.adjustedExponent b.adjustedExponent with
  | .eq =>
    let exponent := min a.exponent b.exponent
    compare (a.abs.rescale exponent).coefficient (b.abs.rescale exponent).coefficient
  | decided => decided

/-- The order of two decimals as numbers. -/
protected def compare (a b : Decimal) : Ordering :=
  match compare a.coefficient.sign b.coefficient.sign with
  | .eq =>
    if a.isZero then .eq
    else if a.isNegative then (compareMagnitude a b).swap
    else compareMagnitude a b
  | decided => decided

instance : Ord Decimal := ⟨Decimal.compare⟩

/-- Whether two decimals are the same number. -/
def equiv (a b : Decimal) : Bool := a.compare b == .eq

/-- Whether the second decimal does not come before the first. -/
def le (a b : Decimal) : Bool := a.compare b != .gt

end Reckon.Decimal
