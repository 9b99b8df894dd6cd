import Reckon.Register
import Reckon.Integer.PowerOfTen
import Reckon.Integer.DigitCount

/-!
# Decimal numbers

A `Decimal` is a whole coefficient scaled by a power of ten.  A number has many of them: `2.50`
and `2.5` differ in coefficient and exponent, and structural equality tells them apart, because
they are written differently.  Numeric order and equality are in `Reckon.Decimal.Order`.

Here are the questions that can be asked of a single decimal: its sign, the exponent of its
leading digit, and whether it is whole.
-/

namespace Reckon

/-- The number `coefficient × 10 ^ exponent`. -/
structure Decimal where
  coefficient : Int
  exponent : Int
  deriving DecidableEq, Inhabited

namespace Decimal

/-- A whole number, written without an exponent. -/
def ofInt (n : Int) : Decimal := ⟨n, 0⟩

protected def zero : Decimal := ofInt 0

protected def one : Decimal := ofInt 1

/-- The opposite number, with the same exponent. -/
protected def neg (d : Decimal) : Decimal := ⟨-d.coefficient, d.exponent⟩

instance : Neg Decimal := ⟨Decimal.neg⟩

/-- The number without its sign, with the same exponent. -/
def abs (d : Decimal) : Decimal := ⟨d.coefficient.natAbs, d.exponent⟩

def isZero (d : Decimal) : Bool := d.coefficient == 0

def isNegative (d : Decimal) : Bool := decide (d.coefficient < 0)

/-- How many digits the coefficient has. -/
def digits (d : Decimal) : Nat := digitCount d.coefficient.natAbs

@[simp] theorem neg_coefficient (d : Decimal) : (-d).coefficient = -d.coefficient := rfl

@[simp] theorem neg_exponent (d : Decimal) : (-d).exponent = d.exponent := rfl

@[simp] protected theorem neg_neg (d : Decimal) : - -d = d := by
  obtain ⟨coefficient, exponent⟩ := d
  exact congrArg (Decimal.mk · exponent) (Int.neg_neg coefficient)

@[simp] theorem digits_neg (d : Decimal) : (-d).digits = d.digits := by
  simp [digits]

@[simp] theorem digits_abs (d : Decimal) : d.abs.digits = d.digits := rfl

@[simp] theorem isZero_iff {d : Decimal} : d.isZero = true ↔ d.coefficient = 0 := by
  simp [isZero]

@[simp] theorem isNegative_iff {d : Decimal} : d.isNegative = true ↔ d.coefficient < 0 := by
  simp [isNegative]

section Register

variable [Register]

open Register

/-- The exponent of the leading digit. -/
def adjustedExponent (d : Decimal) : Int := saturate (d.exponent + (d.digits - 1))

/-- Whether the number is whole: nothing stands after the point, or only zeros do. -/
def isInteger (d : Decimal) : Bool :=
  if 0 ≤ d.exponent ∨ d.isZero then true
  else
    let places := wrap (-d.exponent)
    if d.digits ≤ places then false else d.coefficient % pow10 places == 0

/-- The whole number that the decimal stands for, if it stands for one. -/
def toInteger? (d : Decimal) : Option Int :=
  if d.isInteger then
    if 0 ≤ d.exponent then some (d.coefficient * pow10 d.exponent)
    else some (d.coefficient.tdiv (pow10 (wrap (-d.exponent))))
  else none

/-- The count that the decimal stands for: a whole number of at most sixty-four bits.  A leading
digit beyond the twentieth place rules it out before the number is written out. -/
def toCount? (d : Decimal) : Option Nat :=
  if 19 < d.adjustedExponent then none
  else
    match d.toInteger? with
    | some n => if 0 ≤ n ∧ n < 18446744073709551616 then some n.toNat else none
    | none => none

end Register

end Decimal

end Reckon
