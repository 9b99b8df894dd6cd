import Reckon.Decimal.Basic

/-!
# Writing decimals

A decimal is written with all of its digits and nothing more, so that its text gives coefficient
and exponent back.  Where the exponent is positive, or the number begins more than six places
behind the point, one digit stands before the point and an exponent follows; otherwise the point
is put where it belongs.  `plainText` never writes an exponent and fills up with zeros instead.
-/

namespace Reckon.Decimal

variable [Register]

open Register

/-- The digits of the coefficient, without its sign. -/
def digitChars (d : Decimal) : List Char := Nat.toDigits 10 d.coefficient.natAbs

/-- A minus for a negative number, and nothing otherwise. -/
def signChars (d : Decimal) : List Char := if d.isNegative then ['-'] else []

/-- The digits with a point behind the first `point` of them; zeros fill the places that the
digits do not reach. -/
def placePoint (digits : List Char) (point : Int) : List Char :=
  if point ≤ 0 then '0' :: '.' :: (List.replicate (wrap (-point)).toNat '0' ++ digits)
  else if digits.length ≤ point then
    digits ++ List.replicate (wrap (point - digits.length)).toNat '0'
  else digits.take point.toNat ++ '.' :: digits.drop point.toNat

/-- How many of the digits stand before the point, when no exponent is written. -/
def pointPosition (d : Decimal) : Int := saturate (d.exponent + d.digitChars.length)

/-- The characters of the number without an exponent. -/
def plainChars (d : Decimal) : List Char :=
  d.signChars ++ placePoint d.digitChars d.pointPosition

/-- The exponent behind the digits, written with its sign and only when it is not zero. -/
def exponentChars (exponent : Int) : List Char :=
  if exponent = 0 then []
  else 'E' :: (if exponent < 0 then '-' else '+') :: Nat.toDigits 10 exponent.natAbs

/-- How many digits stand before the point. -/
def shownPoint (d : Decimal) : Int :=
  if d.exponent ≤ 0 ∧ -6 < d.pointPosition then d.pointPosition else 1

/-- The characters of the number, with an exponent where one is needed. -/
def chars (d : Decimal) : List Char :=
  d.signChars ++ placePoint d.digitChars d.shownPoint ++
    exponentChars (wrap (d.pointPosition - d.shownPoint))

/-- The number as it is shown. -/
def text (d : Decimal) : String := String.ofList d.chars

/-- The number as it would be written in an expression. -/
def plainText (d : Decimal) : String := String.ofList d.plainChars

end Reckon.Decimal
