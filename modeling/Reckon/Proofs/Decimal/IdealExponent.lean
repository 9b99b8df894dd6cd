import Mathlib.Order.Bounds.Basic
import Reckon.Proofs.Decimal.Quotient

/-!
# The exponent of a quotient

The ideal exponent for a quotient is the difference of its operands' exponents.  An exact quotient
is written with that exponent, or with the nearest one below with which it can be written
(`IsNearestExponent`); where this would take more digits than are kept, it is written with as many
as are kept.  So is every quotient that has more digits, or endlessly many (`div_ideal_exponent`).

Before it is rounded an exact quotient has been given zeros and has lost them again.  It loses them
until the exponent is the ideal one or until the last digit is not a zero, so it stops at the
nearest exponent (`exists_isNearestExponent`).  Where the dividend was longer than the divisor by so
much that it was given none, the exponent is above the ideal one already, and there are more digits
than are kept.
-/

namespace Reckon.Decimal

variable {p : ℕ} {m : ℤ} {a b d r : Decimal}

/-- Of the exponents up to `ideal`, the largest with which `x` can be written. -/
def IsNearestExponent (ideal : ℤ) (x : ℚ) (e : ℤ) : Prop :=
  IsGreatest {e | e ≤ ideal ∧ ∃ k : ℤ, x = k * 10 ^ e} e

/-- A number that does not end in a zero cannot be written with a larger exponent. -/
theorem exponent_le_of_value_eq (hd : ¬(10 : ℤ) ∣ d.coefficient) {k e : ℤ}
    (h : d.value = k * 10 ^ e) : e ≤ d.exponent := by
  by_contra hlt
  obtain ⟨n, rfl⟩ : ∃ n : ℕ, e = d.exponent + (n + 1 : ℕ) :=
    ⟨(e - d.exponent - 1).toNat, by omega⟩
  have hcoefficient : (d.coefficient : ℚ) = ((k * 10 ^ (n + 1) : ℤ) : ℚ) := by
    apply mul_right_cancel₀ (ten_zpow_pos d.exponent).ne'
    rw [← value, h, ten_zpow_add, zpow_natCast]
    push_cast
    ring
  apply hd
  rw [show d.coefficient = k * 10 ^ (n + 1) by exact_mod_cast hcoefficient, pow_succ]
  exact ⟨k * 10 ^ n, by ring⟩

/-! ## The quotient before it is rounded -/

/-- A quotient of few digits is found exactly, with all its zeros taken off down to the nearest
exponent; or its exponent was above the ideal one, and it has more digits than are kept. -/
theorem exists_isNearestExponent (hp : 0 < p) (ha0 : a.coefficient ≠ 0) (hb0 : b.coefficient ≠ 0)
    (h : Representable p (a.value / b.value)) :
    (signedQuotient p a b).value = a.value / b.value ∧
      ∃ e, IsNearestExponent (a.exponent - b.exponent) (a.value / b.value) e ∧
        e ≤ (signedQuotient p a b).exponent ∧
        ((signedQuotient p a b).digits ≤ p → e = (signedQuotient p a b).exponent) := by
  obtain ⟨hvalue, hstop⟩ | ⟨hlong, -⟩ := signedQuotient_cases hp ha0 hb0
  · refine ⟨hvalue, ?_⟩
    rcases le_total (signedQuotient p a b).exponent (a.exponent - b.exponent) with hle | hge
    · refine ⟨_, ⟨⟨hle, _, hvalue.symm⟩, ?_⟩, le_rfl, fun _ => rfl⟩
      rintro e ⟨he, k, hk⟩
      rcases hstop with hideal | ⟨-, hlast⟩
      · omega
      · exact exponent_le_of_value_eq hlast (hvalue.trans hk)
    · have hwhole : ∃ k : ℤ, a.value / b.value = k * 10 ^ (a.exponent - b.exponent) := by
        rw [← hvalue, value]
        exact ⟨_, mul_ten_zpow_eq hge _⟩
      refine ⟨_, ⟨⟨le_rfl, hwhole⟩, fun e he => he.1⟩, hge, fun hfew => ?_⟩
      -- above the ideal exponent the dividend is so long that all digits of the quotient are kept
      by_contra hne
      have hlong : b.digits + p + 1 ≤ a.digits := by
        unfold quotientExponent at hstop
        omega
      have := lt_digits_signedQuotient hp ha0 hb0 hlong
      omega
  · exact absurd h hlong

/-! ## The quotient -/

/-- Rounding a number of few digits drops zeros only, and no more of them than it has to. -/
theorem exponent_keepDigitsExactly_of_representable (hp : 0 < p) (hne : d.coefficient ≠ 0)
    (h : Representable p d.value) :
    (d.keepDigitsExactly p).exponent = max d.exponent (d.leading - p + 1) := by
  rcases Nat.lt_or_ge p d.digits with hlong | hshort
  · have hleading : (d.keepDigitsExactly p).leading = d.leading :=
      leading_eq_of_value_eq (keepDigitsExactly_ne_zero hp hne)
        (value_keepDigitsExactly_of_representable hp h)
    have hdigits := digits_keepDigitsExactly hp hlong
    unfold leading at *
    omega
  · rw [keepDigitsExactly_of_digits_le hshort]
    unfold leading
    omega

/-- A result other than zero keeps the digits that rounding keeps. -/
theorem eq_keepDigitsExactly_of_roundExactly (h : d.roundExactly p m = .ok r)
    (hr : r.coefficient ≠ 0) : r = d.keepDigitsExactly p := by
  unfold roundExactly at h
  split at h
  · cases h
    exact absurd rfl hr
  · split at h
    · cases h
    · split at h
      · cases h
        exact absurd rfl hr
      · cases h
        rfl

/-- A quotient that has no more digits than are kept is written with the nearest exponent at which
it is whole, if that leaves as few digits, and with as many as are kept otherwise.  Every other
quotient is written with as many digits as are kept. -/
theorem div_ideal_exponent (limits : Limits) (ha : a.Moderate) (hb : b.Moderate)
    (ha0 : a.value ≠ 0) (hb0 : b.value ≠ 0) (hr : div limits a b = .ok r) (hr0 : r.value ≠ 0) :
    let q := a.value / b.value
    (Representable limits.precision q →
      ∃ e, IsNearestExponent (a.exponent - b.exponent) q e ∧
        r.exponent = max e (Int.log 10 |q| - limits.precision + 1)) ∧
    (¬Representable limits.precision q → r.digits = limits.precision) := by
  intro q
  have hp := limits.precision_pos
  have ha0 : a.coefficient ≠ 0 := mt value_eq_zero_iff.2 ha0
  have hb0 : b.coefficient ≠ 0 := mt value_eq_zero_iff.2 hb0
  have hage := ha.exponent_ge
  have hale := ha.exponent_le
  rw [div, divTo_eq_divExactly ha.roomy (by omega) (by omega) hb limits.manageable, divExactly,
    if_neg hb0, if_neg ha0] at hr
  have hkept := eq_keepDigitsExactly_of_roundExactly hr (mt value_eq_zero_iff.2 hr0)
  constructor
  · intro hrepresentable
    obtain ⟨hvalue, e, he, hle, hfew⟩ := exists_isNearestExponent hp ha0 hb0 hrepresentable
    refine ⟨e, he, ?_⟩
    have hs0 : (signedQuotient limits.precision a b).coefficient ≠ 0 := by
      rw [ne_eq, ← value_eq_zero_iff, hvalue, div_eq_zero_iff, value_eq_zero_iff, value_eq_zero_iff]
      exact not_or.2 ⟨ha0, hb0⟩
    have hleading : Int.log 10 |q| = (signedQuotient limits.precision a b).leading := by
      rw [← log_abs_value hs0, hvalue]
    rw [hkept, exponent_keepDigitsExactly_of_representable hp hs0 (hvalue ▸ hrepresentable),
      hleading]
    -- with more digits than are kept, the nearest exponent does not come into play
    by_cases hshort : (signedQuotient limits.precision a b).digits ≤ limits.precision
    · rw [hfew hshort]
    · unfold leading
      omega
  · intro hrepresentable
    have hlong : limits.precision < (signedQuotient limits.precision a b).digits := by
      obtain ⟨hvalue, -⟩ | ⟨-, hlong⟩ := signedQuotient_cases hp ha0 hb0
      · by_contra hshort
        exact hrepresentable ⟨_, _, (digits_le_iff hp).1 (not_lt.1 hshort), hvalue.symm⟩
      · exact hlong
    rw [hkept, digits_keepDigitsExactly hp hlong]

/-- Six divided by two hundred is written with two places, one more than is ideal. -/
theorem six_divided_by_two_hundred :
    ((⟨60, -1⟩ : Decimal).Moderate ∧ (⟨200, 0⟩ : Decimal).Moderate ∧
        (⟨60, -1⟩ : Decimal).value ≠ 0 ∧ (⟨200, 0⟩ : Decimal).value ≠ 0 ∧
        div .default ⟨60, -1⟩ ⟨200, 0⟩ = .ok ⟨3, -2⟩ ∧ (⟨3, -2⟩ : Decimal).value ≠ 0) ∧
      ∃ e, IsNearestExponent (-1 - 0)
          ((⟨60, -1⟩ : Decimal).value / (⟨200, 0⟩ : Decimal).value) e ∧ -2 = max e (-29) := by
  have ha : (⟨60, -1⟩ : Decimal).Moderate := ⟨by decide, by decide, by decide⟩
  have hb : (⟨200, 0⟩ : Decimal).Moderate := ⟨by decide, by decide, by decide⟩
  have ha0 : (⟨60, -1⟩ : Decimal).value ≠ 0 := by simp
  have hb0 : (⟨200, 0⟩ : Decimal).value ≠ 0 := by simp
  have hr0 : (⟨3, -2⟩ : Decimal).value ≠ 0 := by simp
  have hr : div .default ⟨60, -1⟩ ⟨200, 0⟩ = .ok ⟨3, -2⟩ := by decide +kernel
  have hquotient : (⟨60, -1⟩ : Decimal).value / (⟨200, 0⟩ : Decimal).value = 3 / 100 := by
    norm_num [value]
  have hlog : Int.log 10 |(3 / 100 : ℚ)| = -2 := log_eq (by norm_num) (by norm_num)
  have hfew : Representable 28 (3 / 100 : ℚ) := ⟨3, -2, by norm_num, by norm_num⟩
  obtain ⟨hexact, -⟩ := div_ideal_exponent .default ha hb ha0 hb0 hr hr0
  rw [hquotient, hlog] at hexact
  refine ⟨⟨ha, hb, ha0, hb0, hr, hr0⟩, ?_⟩
  rw [hquotient]
  exact hexact hfew

end Reckon.Decimal
