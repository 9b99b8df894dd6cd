/-!
# Powers modulo a number

The remainder of a scaled dividend needs only the scale's remainder, which repeated squaring finds
without forming the power.
-/

namespace Reckon

/-- The remainder of `base ^ exponent` on division by `modulus`, by squaring the remainder of half
the power. -/
def powMod (base exponent modulus : Nat) : Nat :=
  if exponent = 0 then 1 % modulus
  else
    let half := powMod base (exponent / 2) modulus
    let square := half * half % modulus
    if exponent % 2 = 0 then square else square * base % modulus
termination_by exponent

end Reckon
