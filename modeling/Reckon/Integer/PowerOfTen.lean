/-!
# Powers of ten

Scaling a coefficient is multiplying or dividing it by a power of ten.  `pow10` takes the exponent
from the register of exponents, so it may be given a negative one, which counts as zero, and it
hands at most `largestPower` on to the multiplication.
-/

namespace Reckon

/-- The largest exponent that a power of ten is raised to. -/
def largestPower : Nat := 4294967295

/-- The power of ten of the given exponent, for exponents from zero to `largestPower`; outside
them the power of the nearer end. -/
def pow10 (exponent : Int) : Nat :=
  Nat.pow 10 (min exponent.toNat largestPower)

@[simp] theorem pow10_zero : pow10 0 = 1 := rfl

theorem pow10_pos (exponent : Int) : 0 < pow10 exponent :=
  Nat.pow_pos (by decide)

end Reckon
