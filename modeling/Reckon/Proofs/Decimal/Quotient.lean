import Reckon.Decimal.Product
import Reckon.Decimal.Quotient
import Reckon.Proofs.Decimal.ExactQuotient
import Reckon.Proofs.Decimal.Sum

/-!
# Products, quotients and means

A product of moderate numbers is roomy, so it is rounded as it is.  A quotient is the one that is
found without bounds (`divTo_eq_divExactly`), and the exact one rounded once (`roundsOnce_divTo`).
The mean of two numbers is half of a sum that is rounded as the exact one to two digits more, and
those are enough for its half (`roundsOnce_average`).
-/

namespace Reckon.Decimal

variable {p : ℕ} {m : ℤ} {a b r : Decimal}

/-! ## Products -/

/-- A product has no more digits than its factors together. -/
theorem digits_mul_le (a b : Decimal) (e : ℤ) :
    (⟨a.coefficient * b.coefficient, e⟩ : Decimal).digits ≤ a.digits + b.digits := by
  rw [digits_le_iff (by have := a.digits_pos; omega)]
  dsimp only
  rw [abs_mul, pow_add]
  exact mul_lt_mul'' a.abs_coefficient_lt b.abs_coefficient_lt (abs_nonneg _) (abs_nonneg _)

theorem roomy_mul (ha : a.Moderate) (hb : b.Moderate) :
    (⟨a.coefficient * b.coefficient, a.exponent + b.exponent⟩ : Decimal).Roomy := by
  have hdigits := digits_mul_le a b (a.exponent + b.exponent)
  obtain ⟨hadigits, hage, hale⟩ := ha
  obtain ⟨hbdigits, hbge, hble⟩ := hb
  exact ⟨by unfold largestPower; omega, by dsimp only; omega, by dsimp only; omega⟩

/-- A product of moderate numbers is roomy, so it is rounded as it is. -/
theorem roundsOnce_mulTo (ha : a.Moderate) (hb : b.Moderate) :
    RoundsOnce p m (a.value * b.value) (mulTo p m a b) := by
  have hroomy := roomy_mul ha hb
  obtain ⟨-, hage, hale⟩ := ha
  obtain ⟨-, hbge, hble⟩ := hb
  unfold mulTo
  rw [Register.saturate_eq (by omega) (by omega)]
  apply hroomy.roundsOnce
  simp only [value, ten_zpow_add]
  push_cast
  ring

theorem normal_mulTo (h : Manageable p m) (ha : a.Moderate) (hb : b.Moderate)
    (hr : mulTo p m a b = .ok r) : r.Normal p m :=
  (roundsOnce_mulTo ha hb).rounds.normal h hr

/-! ## Division in the register -/

/-- As long as the cap of the powers of ten is not reached, all zeros are written out. -/
theorem divShifted_eq {shift : ℤ} (hlow : -largestPower ≤ shift) (hhigh : shift ≤ largestPower)
    (n k : ℕ) :
    divShifted shift n k =
      (n * 10 ^ shift.toNat / (k * 10 ^ (-shift).toNat),
        n * 10 ^ shift.toNat % (k * 10 ^ (-shift).toNat)) := by
  unfold divShifted
  split
  · next hshift =>
    have hpow : pow10 shift = 10 ^ shift.toNat := by
      rw [← pow10_natCast (by omega), Int.toNat_of_nonneg hshift]
    have hzero : (-shift).toNat = 0 := by omega
    dsimp only
    rw [hpow, hzero, pow_zero, mul_one]
  · -- the zeros are given to the divisor instead
    next hshift =>
    have hwrap : Register.wrap (-shift) = -shift := by
      unfold largestPower at hlow
      exact Register.wrap_eq (by omega) (by omega)
    have hpow : pow10 (-shift) = 10 ^ (-shift).toNat := by
      rw [← pow10_natCast (by omega), Int.toNat_of_nonneg (by omega)]
    have hzero : shift.toNat = 0 := by omega
    dsimp only
    rw [hwrap, hpow, hzero, pow_zero, mul_one]

section Bounded

variable (ha : a.Roomy) (halow : -2 ^ 61 ≤ a.exponent) (hahigh : a.exponent ≤ 2 ^ 61)
  (hb : b.Moderate)

include halow hahigh hb

/-- A zero is not divided at all, and only its exponent counts. -/
private theorem divTo_of_zero (p : ℕ) (m : ℤ) (ha0 : a.coefficient = 0) (hb0 : b.coefficient ≠ 0) :
    (⟨0, a.exponent - b.exponent⟩ : Decimal).Roomy ∧
      divTo p m a b = (⟨0, a.exponent - b.exponent⟩ : Decimal).roundTo p m := by
  obtain ⟨-, hblow, hbhigh⟩ := hb
  unfold divTo
  rw [if_neg (by simpa using hb0), if_pos (by simpa using ha0),
    Register.saturate_eq (by omega) (by omega)]
  exact ⟨⟨by simp [digits, largestPower], by dsimp only; omega, by dsimp only; omega⟩, rfl⟩

include ha

/-- Numbers with room in the register are divided as if it had no end. -/
theorem divUnrounded_eq_divUnroundedExactly (hp : p ≤ 2 ^ 30) :
    divUnrounded p a b = divUnroundedExactly p a b := by
  have hadigits := ha.digits_le
  obtain ⟨hbdigits, hblow, hbhigh⟩ := hb
  unfold largestPower at hadigits
  unfold divUnrounded divUnroundedExactly
  dsimp only
  rw [Register.wrap_eq (by omega) (by omega),
    Register.saturate_eq (n := a.exponent - b.exponent) (by omega) (by omega),
    Register.saturate_eq (by omega) (by omega),
    divShifted_eq (by unfold largestPower; omega) (by unfold largestPower; omega)]

theorem roomy_signedQuotient (hp : p ≤ 2 ^ 30) (ha0 : a.coefficient ≠ 0)
    (hb0 : b.coefficient ≠ 0) : (signedQuotient p a b).Roomy := by
  obtain ⟨hsize, hlow, hhigh⟩ := signedQuotient_mem p ha0 hb0
  have hadigits := ha.digits_le
  have := a.digits_pos
  have := hb.digits_lt
  have := hb.exponent_ge
  have := hb.exponent_le
  unfold largestPower at hadigits
  unfold quotientExponent at hlow
  unfold quotientExponent quotientShift at hhigh
  exact ⟨by unfold largestPower; omega, by omega, by omega⟩

/-- The quotient of two numbers other than zero, with its sign. -/
theorem divTo_of_ne_zero (hp : p ≤ 2 ^ 30) (ha0 : a.coefficient ≠ 0)
    (hb0 : b.coefficient ≠ 0) : divTo p m a b = (signedQuotient p a b).roundTo p m := by
  unfold divTo signedQuotient
  rw [if_neg (by simpa using hb0), if_neg (by simpa using ha0),
    divUnrounded_eq_divUnroundedExactly ha halow hahigh hb hp]

theorem roundsOnce_divTo (h : Manageable p m) (hb0 : b.coefficient ≠ 0) :
    RoundsOnce p m (a.value / b.value) (divTo p m a b) := by
  have hp := h.precision_le
  by_cases ha0 : a.coefficient = 0
  · obtain ⟨hroomy, hquotient⟩ := divTo_of_zero halow hahigh hb p m ha0 hb0
    rw [hquotient]
    apply hroomy.roundsOnce
    rw [value_eq_zero_iff.2 ha0, zero_div]
    exact (value_eq_zero_iff.2 rfl).symm
  · exact ⟨_, roomy_signedQuotient ha halow hahigh hb hp ha0 hb0,
      roundsAs_signedQuotient ha0 hb0, divTo_of_ne_zero ha halow hahigh hb hp ha0 hb0⟩

theorem divTo_eq_divExactly (h : Manageable p m) : divTo p m a b = divExactly p m a b := by
  have hp := h.precision_le
  unfold divExactly
  split
  · next hb0 =>
    unfold divTo
    rw [if_pos (by simpa using hb0)]
  · next hb0 =>
    split
    · next ha0 =>
      obtain ⟨hroomy, hquotient⟩ := divTo_of_zero halow hahigh hb p m ha0 hb0
      rw [hquotient, roundTo_eq_roundExactly h hroomy]
    · next ha0 =>
      rw [divTo_of_ne_zero ha halow hahigh hb hp ha0 hb0,
        roundTo_eq_roundExactly h (roomy_signedQuotient ha halow hahigh hb hp ha0 hb0)]

end Bounded

/-! ## Quotients and means -/

theorem roundsOnce_div (limits : Limits) (ha : a.Moderate) (hb : b.Moderate)
    (hb0 : b.coefficient ≠ 0) :
    RoundsOnce limits.precision limits.maxExponent (a.value / b.value) (div limits a b) := by
  have := ha.exponent_ge
  have := ha.exponent_le
  exact roundsOnce_divTo ha.roomy (by omega) (by omega) hb limits.manageable hb0

/-- The two digits more that the sum is formed with are enough for its half. -/
theorem roundsOnce_average (limits : Limits) (ha : a.Moderate) (hb : b.Moderate) :
    RoundsOnce limits.precision limits.maxExponent ((a.value + b.value) / 2)
      (average limits a b) := by
  have h := limits.manageable
  have hp := Nat.add_le_add_right h.precision_le 2
  obtain ⟨hlow, hhigh⟩ := exponent_addUnrounded_mem hp ha hb
  have hquotient := roundsOnce_divTo (roomy_addUnrounded hp ha hb) hlow (by omega) moderate_two h
    (by decide)
  have hsum := (roundsAs_addUnrounded hp ha hb).div_two
  rw [value_ofInt] at hquotient
  exact hquotient.of_roundsAs h.precision_pos hsum

end Reckon.Decimal
