import Reckon.Decimal.Basic
import Reckon.Integer.HalfEven

/-!
# Logarithm and exponential in fixed point

A real number is held here as the integer nearest to its `10 ^ places`-fold, and the logarithm and
the exponential are summed from their series on such integers: the logarithm by the inverse
hyperbolic tangent of a number of magnitude at most one third, the exponential by its powers.  A
series is finished when its next term is too small to show in the given places.  `seriesLength`
bounds the number of terms; the arguments that occur make a term at least nine times smaller than
the one before it, or divide it by its growing position, so the bound is never what ends a sum.
-/

namespace Reckon.Series

open Decimal Register

/-- One, with the given number of places. -/
def unit (places : Nat) : Int := pow10 places

/-- As many terms as a series with the given number of places may have. -/
def seriesLength (places : Nat) : Nat := 2 * places + 10

/-- The terms of the inverse hyperbolic tangent from one power of the argument on: each power is
divided by its exponent and added to `sum`, and times `square` it is the next one. -/
def atanhFrom (one square : Int) :
    (terms : Nat) → (power : Int) → (position : Nat) → (sum : Int) → Int
  | 0, _, _, sum => sum
  | terms + 1, power, position, sum =>
    if power = 0 then sum
    else
      atanhFrom one square terms (divHalfEven (power * square) one) (position + 2)
        (sum + power.tdiv position)

/-- The inverse hyperbolic tangent of a number of magnitude at most one third. -/
def atanh (places : Nat) (z : Int) : Int :=
  let one := unit places
  atanhFrom one (divHalfEven (z * z) one) (seriesLength places) z 1 0

/-- The terms of the exponential from one position on, each the one before it times the argument
and divided by the position. -/
def expFrom (one x : Int) :
    (terms : Nat) → (term : Int) → (position : Nat) → (sum : Int) → Int
  | 0, _, _, sum => sum
  | terms + 1, term, position, sum =>
    let next := divHalfEven (term * x) (one * position)
    if next = 0 then sum else expFrom one x terms next (position + 1) (sum + next)

/-- The exponential of a number not much farther from zero than half the logarithm of ten. -/
def exp (places : Nat) (x : Int) : Int :=
  let one := unit places
  expFrom one x (seriesLength places) one 1 one

/-- The logarithm of two, from `ln 2 = 2 atanh (1/3)`. -/
def ln2 (places : Nat) : Int := 2 * atanh places (unit places / 3)

/-- The logarithm of ten, from `ln 10 = 3 ln 2 + 2 atanh (1/9)`. -/
def ln10 (places : Nat) : Int := 3 * ln2 places + 2 * atanh places (unit places / 9)

/-- The logarithm of a number from one up to two, from `ln x = 2 atanh ((x - 1) / (x + 1))`. -/
def lnNearOne (places : Nat) (x : Int) : Int :=
  let one := unit places
  2 * atanh places (divHalfEven ((x - one) * one) (x + one))

theorem divHalfEven_two_le (m : Nat) : divHalfEven m 2 ≤ (m + 1) / 2 := by
  have hq : (m : Int).tdiv 2 = m / 2 := Int.tdiv_eq_ediv_of_nonneg (by omega)
  have hs : (m : Int).sign ≤ 1 := by
    rcases Int.sign_trichotomy m with h | h | h <;> rw [h] <;> decide
  have hr : (m : Int).tmod 2 = m % 2 := Int.tmod_eq_emod_of_nonneg (by omega)
  simp only [divHalfEven, hq, hr]
  split
  · omega
  · next h =>
    have := Int.compare_eq_gt.1 h
    omega
  · next h =>
    have := Int.compare_eq_eq.1 h
    split <;> omega

/-- A number of at least two is halved until it is less than two; the second result counts the
halvings. -/
def halve (places : Nat) (mantissa halvings : Nat) : Nat × Nat :=
  if _h : 2 * pow10 places ≤ mantissa then
    halve places (divHalfEven mantissa 2).toNat (halvings + 1)
  else (mantissa, halvings)
termination_by mantissa
decreasing_by
  have hone := pow10_pos places
  have hhalf := divHalfEven_two_le mantissa
  omega

section Register

variable [Register]

/-- The number times the power of ten of exponent `shift`; where that divides, to the nearest
integer. -/
def shiftTo (value : Int) (shift : Int) : Int :=
  if 0 ≤ shift then value * pow10 shift else divHalfEven value (pow10 (wrap (-shift)))

/-- The natural logarithm of a positive decimal.  It is split into a power of ten and a number
from one up to ten, and that number is halved into reach of `lnNearOne`. -/
def ln (places : Nat) (d : Decimal) : Int :=
  let mantissa := shiftTo d.coefficient.natAbs (wrap (places - (d.digits - 1)))
  let (nearOne, halvings) := halve places mantissa.toNat 0
  lnNearOne places nearOne + ln2 places * halvings + ln10 places * d.adjustedExponent

end Register

end Reckon.Series
