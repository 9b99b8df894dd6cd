import Reckon.Proofs.Decimal.Nearest
import Reckon.Proofs.Decimal.Quotient

/-!
# Correctly rounded results

A result that is the exact number rounded once (`RoundsOnce`) has three outcomes, and the rounded
number decides between them (`RoundsOnce.outcome`): above the range there is no result, below it the
result is zero, and in between it is the rounded number.  Zero itself is rounded to zero, which has
its place in between.

Quotients are rounded once, so all of this holds of them (`div_correctly_rounded`).
-/

namespace Reckon.Decimal

variable {p : ℕ} {m : ℤ} {x : ℚ} {result : Except ArithmeticFault Decimal} {a b : Decimal}

/-! ## The outcomes of rounding once -/

/-- What comes out is decided by the rounded number. -/
theorem RoundsOnce.outcome (h : Manageable p m) (hresult : RoundsOnce p m x result) :
    (m < Int.log 10 |nearest p x| ∧ result = .error .overflow) ∨
      (Int.log 10 |nearest p x| < -m ∧ ∃ r, result = .ok r ∧ r.value = 0) ∨
      ((-m ≤ Int.log 10 |nearest p x| ∧ Int.log 10 |nearest p x| ≤ m) ∧
        ∃ r, result = .ok r ∧ r.value = nearest p x) := by
  have hvalue := hresult.map_value h
  unfold rounded at hvalue
  split at hvalue
  · next hhigh =>
    cases result with
    | error fault =>
        cases hvalue
        exact Or.inl ⟨hhigh, rfl⟩
    | ok r => cases hvalue
  · next hhigh =>
    split at hvalue
    · next hlow =>
      cases result with
      | error fault => cases hvalue
      | ok r => exact Or.inr (Or.inl ⟨hlow, r, rfl, Except.ok.inj hvalue⟩)
    · next hlow =>
      cases result with
      | error fault => cases hvalue
      | ok r =>
          exact Or.inr (Or.inr ⟨⟨not_lt.1 hlow, not_lt.1 hhigh⟩, r, rfl, Except.ok.inj hvalue⟩)

/-- There is no result exactly when the rounded number lies above the range. -/
theorem RoundsOnce.eq_overflow_iff (h : Manageable p m) (hresult : RoundsOnce p m x result) :
    result = .error .overflow ↔ m < Int.log 10 |nearest p x| := by
  have hm := h.maxExponent_pos
  obtain ⟨hhigh, hr⟩ | ⟨hlow, r, hr, -⟩ | ⟨⟨-, hle⟩, r, hr, -⟩ := hresult.outcome h
  · exact iff_of_true hr hhigh
  · exact iff_of_false (by simp [hr]) (by omega)
  · exact iff_of_false (by simp [hr]) (by omega)

/-- The result is zero exactly when the exact number is, or when the rounded one lies below the
range. -/
theorem RoundsOnce.isZero_iff (h : Manageable p m) (hresult : RoundsOnce p m x result) :
    (∃ r, result = .ok r ∧ r.isZero) ↔ x = 0 ∨ Int.log 10 |nearest p x| < -m := by
  have hm := h.maxExponent_pos
  have hzero : ∀ {r : Decimal}, r.isZero ↔ r.value = 0 := by simp
  obtain ⟨hhigh, hr⟩ | ⟨hlow, r, hr, hvalue⟩ | ⟨⟨hge, hle⟩, r, hr, hvalue⟩ := hresult.outcome h
  · refine iff_of_false (by simp [hr]) ?_
    rintro (rfl | hlow)
    · rw [nearest_zero, abs_zero, Int.log_zero_right] at hhigh
      omega
    · omega
  · exact iff_of_true ⟨r, hr, hzero.2 hvalue⟩ (Or.inr hlow)
  · rw [or_iff_left (by omega)]
    refine ⟨fun ⟨r', hr', hzero'⟩ => ?_, ?_⟩
    · obtain rfl := Except.ok.inj (hr.symm.trans hr')
      by_contra hx
      exact nearest_ne_zero h.precision_pos hx (hvalue ▸ hzero.1 hzero')
    · rintro rfl
      exact ⟨r, hr, hzero.2 (by rw [hvalue, nearest_zero])⟩

/-- In between the result is the rounded number. -/
theorem RoundsOnce.exists_value_eq (h : Manageable p m) (hresult : RoundsOnce p m x result)
    (hge : -m ≤ Int.log 10 |nearest p x|) (hle : Int.log 10 |nearest p x| ≤ m) :
    ∃ r, result = .ok r ∧ r.value = nearest p x := by
  obtain ⟨hhigh, -⟩ | ⟨hlow, -⟩ | ⟨-, hvalue⟩ := hresult.outcome h
  · omega
  · omega
  · exact hvalue

/-- A result other than zero is the rounded number. -/
theorem RoundsOnce.value_eq (h : Manageable p m) (hresult : RoundsOnce p m x result) {r : Decimal}
    (hr : result = .ok r) (hr0 : r.value ≠ 0) : r.value = nearest p x := by
  obtain ⟨-, hfault⟩ | ⟨-, r', hr', hzero⟩ | ⟨-, r', hr', hvalue⟩ := hresult.outcome h
  · cases hr.symm.trans hfault
  · cases hr.symm.trans hr'
    exact absurd hzero hr0
  · cases hr.symm.trans hr'
    exact hvalue

/-- The only fault is the overflow. -/
theorem RoundsOnce.fault_eq (h : Manageable p m) (hresult : RoundsOnce p m x result)
    {fault : ArithmeticFault} (hr : result = .error fault) : fault = .overflow := by
  obtain ⟨-, hfault⟩ | ⟨-, r', hr', -⟩ | ⟨-, r', hr', -⟩ := hresult.outcome h
  · cases hr.symm.trans hfault
    rfl
  · cases hr.symm.trans hr'
  · cases hr.symm.trans hr'

/-! ## Division -/

/-- A quotient is the exact one rounded half to even, with no result above the range and zero below
it. -/
theorem div_correctly_rounded (limits : Limits) (ha : a.Moderate) (hb : b.Moderate)
    (hb0 : b.value ≠ 0) :
    let q := a.value / b.value
    let r := nearest limits.precision q
    (div limits a b = .error .overflow ↔ r ≠ 0 ∧ limits.maxExponent < Int.log 10 |r|) ∧
      ((∃ v, div limits a b = .ok v ∧ v.isZero) ↔
        q = 0 ∨ Int.log 10 |r| < -limits.maxExponent) ∧
      (¬limits.maxExponent < Int.log 10 |r| → ¬Int.log 10 |r| < -limits.maxExponent →
        ∃ v, div limits a b = .ok v ∧ v.value = r) := by
  intro q r
  have h := limits.manageable
  have hm := h.maxExponent_pos
  have hquotient := roundsOnce_div limits ha hb (by simpa using hb0)
  refine ⟨?_, hquotient.isZero_iff h, fun hhigh hlow =>
    hquotient.exists_value_eq h (not_lt.1 hlow) (not_lt.1 hhigh)⟩
  rw [hquotient.eq_overflow_iff h]
  refine ⟨fun hhigh => ⟨fun hzero => ?_, hhigh⟩, fun hr => hr.2⟩
  change limits.maxExponent < Int.log 10 |r| at hhigh
  rw [hzero, abs_zero, Int.log_zero_right] at hhigh
  omega

/-- The default limits, with a single digit kept. -/
def oneDigit : Limits :=
  { Limits.default with precision := 1, precision_pos := by decide, precision_le := by decide }

/-- A quotient so little above a half-way point that the digits the division works out do not show
it is still rounded up. -/
theorem quotient_just_above_half_way :
    (⟨450000001, 0⟩ : Decimal).Moderate ∧ (⟨1, 8⟩ : Decimal).Moderate ∧
      (⟨1, 8⟩ : Decimal).value ≠ 0 ∧
      ∃ v, div oneDigit ⟨450000001, 0⟩ ⟨1, 8⟩ = .ok v ∧ v.value = 5 := by
  have hdividend : (⟨450000001, 0⟩ : Decimal).Moderate := ⟨by decide, by decide, by decide⟩
  have hdivisor : (⟨1, 8⟩ : Decimal).Moderate := ⟨by decide, by decide, by decide⟩
  have hne : (⟨1, 8⟩ : Decimal).value ≠ 0 := by simp
  have hquotient : (⟨450000001, 0⟩ : Decimal).value / (⟨1, 8⟩ : Decimal).value =
      450000001 / 100000000 := by
    norm_num [value]
  have hlog : Int.log 10 |(450000001 / 100000000 : ℚ)| = 0 := log_eq (by norm_num) (by norm_num)
  have hnearest : nearest 1 (450000001 / 100000000) = 5 := by
    have heven : nearestEven (450000001 / 100000000) = 5 :=
      nearestEven_eq_iff.2 (Or.inl (by norm_num))
    rw [nearest, hlog]
    norm_num [heven]
  have hfive : Int.log 10 |(5 : ℚ)| = 0 := log_eq (by norm_num) (by norm_num)
  obtain ⟨-, -, hvalue⟩ := div_correctly_rounded oneDigit hdividend hdivisor hne
  rw [hquotient, show oneDigit.precision = 1 from rfl, hnearest, hfive] at hvalue
  exact ⟨hdividend, hdivisor, hne, hvalue (by decide) (by decide)⟩

end Reckon.Decimal
