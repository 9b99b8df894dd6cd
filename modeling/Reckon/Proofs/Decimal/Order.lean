import Reckon.Decimal.Extremes
import Reckon.Proofs.Decimal.Rounded

/-!
# Numeric order

`compare` orders decimals as their values are ordered (`compare_eq_compare_value`).  The only
condition is that two numbers whose leading digits stand at the same place can be brought to a
common exponent, which numbers of fewer than `2 ^ 31` digits always can.

The larger and the smaller of two numbers follow.
-/

namespace Reckon.Decimal

variable {a b : Decimal}

/-- At a common exponent the coefficients are ordered as the numbers are. -/
private theorem compare_coefficient {c c' e : ℤ} :
    compare c c' = compare (⟨c, e⟩ : Decimal).value (⟨c', e⟩ : Decimal).value := by
  have hscale := ten_zpow_pos e
  simp only [value]
  rcases lt_trichotomy c c' with hlt | rfl | hgt
  · have hcast : (c : ℚ) < c' := by exact_mod_cast hlt
    rw [compare_lt_iff_lt.2 hlt, compare_lt_iff_lt.2 (mul_lt_mul_of_pos_right hcast hscale)]
  · rw [compare_eq_iff_eq.2 rfl, compare_eq_iff_eq.2 rfl]
  · have hcast : (c' : ℚ) < c := by exact_mod_cast hgt
    rw [compare_gt_iff_gt.2 hgt, compare_gt_iff_gt.2 (mul_lt_mul_of_pos_right hcast hscale)]

@[simp] theorem value_abs (d : Decimal) : d.abs.value = |d.value| := by
  rw [abs_value, Int.abs_eq_natAbs]
  rfl

/-- The register keeps the order of leading digits, though it may bring them together. -/
theorem leading_lt_of_adjustedExponent_lt (h : a.adjustedExponent < b.adjustedExponent) :
    a.leading < b.leading := by
  change max Register.least (min _ Register.greatest) <
    max Register.least (min _ Register.greatest) at h
  unfold leading
  omega

/-- The number whose leading digit stands further down is the smaller one. -/
theorem abs_value_lt_of_leading_lt (hb : b.coefficient ≠ 0) (h : a.leading < b.leading) :
    |a.value| < |b.value| :=
  calc |a.value| < 10 ^ (a.leading + 1) := a.abs_value_lt
    _ ≤ 10 ^ b.leading := ten_zpow_le_iff.2 h
    _ ≤ |b.value| := zpow_leading_le hb

theorem compareMagnitude_eq (ha : a.coefficient ≠ 0) (hb : b.coefficient ≠ 0)
    (hgap : a.adjustedExponent = b.adjustedExponent →
      |a.exponent - b.exponent| ≤ largestPower) :
    a.compareMagnitude b = compare |a.value| |b.value| := by
  unfold compareMagnitude
  split
  · next heq =>
    obtain ⟨hlow, hhigh⟩ := abs_le.1 (hgap (compare_eq_iff_eq.1 heq))
    have hleft : (a.abs.rescale (min a.exponent b.exponent)).value = |a.value| := by
      rw [value_rescale, value_abs] <;> dsimp only [abs] <;> omega
    have hright : (b.abs.rescale (min a.exponent b.exponent)).value = |b.value| := by
      rw [value_rescale, value_abs] <;> dsimp only [abs] <;> omega
    rw [compare_coefficient (e := min a.exponent b.exponent), ← hleft, ← hright]
    rfl
  · next decided hdecided =>
    rcases lt_trichotomy a.adjustedExponent b.adjustedExponent with hlt | heq | hgt
    · have hless := abs_value_lt_of_leading_lt hb (leading_lt_of_adjustedExponent_lt hlt)
      rw [compare_lt_iff_lt.2 hlt, compare_lt_iff_lt.2 hless]
    · exact absurd (compare_eq_iff_eq.2 heq) hdecided
    · have hless := abs_value_lt_of_leading_lt ha (leading_lt_of_adjustedExponent_lt hgt)
      rw [compare_gt_iff_gt.2 hgt, compare_gt_iff_gt.2 hless]

/-- Opposite numbers stand in the opposite order. -/
theorem swap_compare_neg {α : Type*} [AddCommGroup α] [LinearOrder α] [IsOrderedAddMonoid α]
    (x y : α) : (compare (-x) (-y)).swap = compare x y := by
  rcases lt_trichotomy x y with hlt | rfl | hgt
  · rw [compare_lt_iff_lt.2 hlt, compare_gt_iff_gt.2 (neg_lt_neg hlt)]
    rfl
  · rw [compare_eq_iff_eq.2 rfl, compare_eq_iff_eq.2 rfl]
    rfl
  · rw [compare_gt_iff_gt.2 hgt, compare_lt_iff_lt.2 (neg_lt_neg hgt)]
    rfl

private theorem value_lt_of_sign_lt (h : a.coefficient.sign < b.coefficient.sign) :
    a.value < b.value := by
  have hbound : -1 ≤ a.coefficient.sign ∧ b.coefficient.sign ≤ 1 := by
    constructor
    · rcases Int.sign_trichotomy a.coefficient with ha | ha | ha <;> omega
    · rcases Int.sign_trichotomy b.coefficient with hb | hb | hb <;> omega
  rcases lt_trichotomy a.coefficient 0 with ha | ha | ha
  · have hb : 0 ≤ b.coefficient := by
      by_contra hneg
      rw [Int.sign_eq_neg_one_of_neg (not_le.1 hneg)] at h
      omega
    exact (value_lt_zero_iff.2 ha).trans_le (not_lt.1 (mt value_lt_zero_iff.1 (by omega)))
  · rw [ha, Int.sign_zero, Int.sign_pos_iff] at h
    rw [value_eq_zero_iff.2 ha]
    exact value_pos_iff.2 h
  · rw [Int.sign_eq_one_of_pos ha] at h
    omega

/-- Decimals are ordered as the numbers that they stand for. -/
theorem compare_eq_compare_value
    (hgap : a.adjustedExponent = b.adjustedExponent →
      |a.exponent - b.exponent| ≤ largestPower) :
    a.compare b = compare a.value b.value := by
  unfold Decimal.compare
  split
  · next hsign =>
    have hsign : a.coefficient.sign = b.coefficient.sign := compare_eq_iff_eq.1 hsign
    rcases lt_trichotomy a.coefficient 0 with ha | ha | ha
    · -- of two negative numbers the one of the larger magnitude is the smaller
      have hb : b.coefficient < 0 := by
        rw [← Int.sign_eq_neg_one_iff_neg, ← hsign, Int.sign_eq_neg_one_of_neg ha]
      rw [if_neg (by simp [isZero]; omega), if_pos (by simpa using ha),
        compareMagnitude_eq ha.ne hb.ne hgap, abs_of_neg (value_lt_zero_iff.2 ha),
        abs_of_neg (value_lt_zero_iff.2 hb)]
      exact swap_compare_neg ..
    · have hb : b.coefficient = 0 := by
        rw [← Int.sign_eq_zero_iff_zero, ← hsign, ha, Int.sign_zero]
      rw [if_pos (by simpa [isZero] using ha), value_eq_zero_iff.2 ha, value_eq_zero_iff.2 hb,
        compare_eq_iff_eq.2 rfl]
    · have hb : 0 < b.coefficient := by
        rw [← Int.sign_eq_one_iff_pos, ← hsign, Int.sign_eq_one_of_pos ha]
      rw [if_neg (by simp [isZero]; omega), if_neg (by simp; omega),
        compareMagnitude_eq ha.ne' hb.ne' hgap, abs_of_pos (value_pos_iff.2 ha),
        abs_of_pos (value_pos_iff.2 hb)]
  · next decided hdecided =>
    rcases lt_trichotomy a.coefficient.sign b.coefficient.sign with hlt | heq | hgt
    · rw [compare_lt_iff_lt.2 hlt, compare_lt_iff_lt.2 (value_lt_of_sign_lt hlt)]
    · exact absurd (compare_eq_iff_eq.2 heq) hdecided
    · rw [compare_gt_iff_gt.2 hgt, compare_gt_iff_gt.2 (value_lt_of_sign_lt hgt)]

theorem Moderate.compare_eq (ha : a.Moderate) (hb : b.Moderate) :
    a.compare b = compare a.value b.value := by
  apply compare_eq_compare_value
  rw [adjustedExponent_eq ha.roomy, adjustedExponent_eq hb.roomy]
  intro hleading
  have := ha.digits_lt
  have := hb.digits_lt
  unfold leading at hleading
  unfold largestPower
  rw [abs_le]
  omega

/-- Decimals are found equal when they stand for the same number. -/
theorem Moderate.equiv_iff (ha : a.Moderate) (hb : b.Moderate) :
    a.equiv b = true ↔ a.value = b.value := by
  unfold equiv
  rw [ha.compare_eq hb, beq_iff_eq, compare_eq_iff_eq]

/-! ## The larger and the smaller of two numbers -/

/-- One of the operands is rounded, and it is the larger one. -/
theorem roundsOnce_larger (limits : Limits) (ha : a.Moderate) (hb : b.Moderate) :
    RoundsOnce limits.precision limits.maxExponent (max a.value b.value) (larger limits a b) := by
  unfold larger
  rw [hb.compare_eq ha]
  split
  · next h => exact hb.roomy.roundsOnce (max_eq_right (compare_gt_iff_gt.1 h).le)
  · next h => exact ha.roomy.roundsOnce (max_eq_left (not_lt.1 (mt compare_gt_iff_gt.2 h)))

/-- One of the operands is rounded, and it is the smaller one. -/
theorem roundsOnce_smaller (limits : Limits) (ha : a.Moderate) (hb : b.Moderate) :
    RoundsOnce limits.precision limits.maxExponent (min a.value b.value) (smaller limits a b) := by
  unfold smaller
  rw [hb.compare_eq ha]
  split
  · next h => exact hb.roomy.roundsOnce (min_eq_right (compare_lt_iff_lt.1 h).le)
  · next h => exact ha.roomy.roundsOnce (min_eq_left (not_lt.1 (mt compare_lt_iff_lt.2 h)))

end Reckon.Decimal
