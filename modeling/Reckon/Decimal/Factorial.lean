import Reckon.Decimal.Product
import Reckon.Decimal.Series

/-!
# Factorials

A factorial is multiplied up from two, and every product on the way is rounded.  Operands that
cannot have a result are turned away before the first product: beyond `largestFactorialOperand`
nothing is computed, and below it the bound `ln n!  ≥ n ln n - n + 1` tells when the result
certainly lies above the range.
-/

namespace Reckon

/-- The largest number whose factorial is computed. -/
def largestFactorialOperand : Nat := 1000000

/-- The places in which the size of a factorial is estimated. -/
def factorialPlaces : Nat := 30

/-- The lower bound `n ln n - n + 1` of the logarithm of the factorial of `n`, in fixed point. -/
def lnFactorialBound [Register] (n : Nat) : Int :=
  n * Series.ln factorialPlaces (Decimal.ofInt n) - (n - 1) * Series.unit factorialPlaces

/-- Whether the factorial of `n` is not computed: `n` is too large, or the estimate already says that
the factorial has more than `maxExponent + 1` digits.

The estimate is made in fixed point and stands for one in double precision, by which
`(n ln n - n + 1) / ln 10` is compared with `maxExponent + 1`.  The two decide alike: for no `n` up
to `largestFactorialOperand` does that quotient come closer than `2e-6` to a whole number, and the
errors of both are far smaller. -/
def factorialExceeds [Register] (n : Nat) (maxExponent : Int) : Bool :=
  if largestFactorialOperand < n then true
  else if n < 2 then false
  else decide ((maxExponent + 1) * Series.ln10 factorialPlaces < lnFactorialBound n)

/-- The factorial of `n`, each product rounded. -/
def Decimal.factorial [Register] (limits : Limits) (n : Nat) : Except ArithmeticFault Decimal :=
  if factorialExceeds n limits.maxExponent then .error .overflow
  else
    (List.range' 2 (n - 1)).foldlM
      (fun product (factor : Nat) => mul limits product (.ofInt factor)) .one

end Reckon
