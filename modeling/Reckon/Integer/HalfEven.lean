/-!
# Division to the nearest integer

`divHalfEven` divides by a positive denominator and rounds to the nearest integer; a quotient
half-way between two integers goes to the even one.  The quotient is taken toward zero and moved
by one step away from zero where the remainder asks for it, so that the rounding of a number and
that of its opposite are opposite.
-/

namespace Reckon

/-- The integer nearest to `numerator / denominator`, of two equally near ones the even one. -/
def divHalfEven (numerator denominator : Int) : Int :=
  let quotient := numerator.tdiv denominator
  let away := quotient + numerator.sign
  match compare (2 * ((numerator.tmod denominator).natAbs : Int)) denominator with
  | .lt => quotient
  | .gt => away
  | .eq => if quotient % 2 = 0 then quotient else away

@[simp] theorem divHalfEven_zero {denominator : Int} (h : 0 < denominator) :
    divHalfEven 0 denominator = 0 := by
  have : compare (0 : Int) denominator = .lt := Int.compare_eq_lt.2 h
  simp [divHalfEven, this]

theorem divHalfEven_neg (numerator denominator : Int) :
    divHalfEven (-numerator) denominator = -divHalfEven numerator denominator := by
  simp only [divHalfEven, Int.neg_tdiv, Int.neg_tmod, Int.natAbs_neg, Int.sign_neg]
  split <;> (try split) <;> (try split) <;> omega

end Reckon
