import Reckon.Decimal.Rounding

/-!
# Products

A product is formed exactly and rounded once.
-/

namespace Reckon.Decimal

variable [Register]

open Register

/-- The product, made to fit `precision` digits and exponents up to `maxExponent`. -/
def mulTo (precision : Nat) (maxExponent : Int) (a b : Decimal) :
    Except ArithmeticFault Decimal :=
  (⟨a.coefficient * b.coefficient, saturate (a.exponent + b.exponent)⟩ : Decimal).roundTo
    precision maxExponent

/-- The product, rounded. -/
def mul (limits : Limits) (a b : Decimal) : Except ArithmeticFault Decimal :=
  mulTo limits.precision limits.maxExponent a b

end Reckon.Decimal
