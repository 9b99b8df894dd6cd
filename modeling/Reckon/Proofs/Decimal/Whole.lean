import Reckon.Proofs.Decimal.Rounding

/-!
# Whole numbers

Whether a decimal is a whole number, and which one, is read off its value (`isInteger_iff`,
`toInteger?_eq_some_iff`), however many zeros stand at its end.
-/

namespace Reckon.Decimal

variable {d : Decimal}

/-- Behind the point a whole number has only zeros. -/
private theorem value_eq_intCast_iff (he : d.exponent ≤ 0) {n : ℤ} :
    d.value = n ↔ d.coefficient = n * 10 ^ (-d.exponent).toNat := by
  have hscale : (10 : ℚ) ^ d.exponent = ((10 ^ (-d.exponent).toNat : ℤ) : ℚ)⁻¹ := by
    rw [← ten_zpow_toNat (by omega), zpow_neg, inv_inv]
  have hne : ((10 ^ (-d.exponent).toNat : ℤ) : ℚ) ≠ 0 := by positivity
  rw [value, hscale, ← div_eq_mul_inv, div_eq_iff hne]
  exact_mod_cast Iff.rfl

private theorem value_of_exponent_nonneg (he : 0 ≤ d.exponent) :
    d.value = ((d.coefficient * 10 ^ d.exponent.toNat : ℤ) : ℚ) := by
  rw [value, ten_zpow_toNat he, Int.cast_mul]

private theorem wrap_places (hd : d.Moderate) : Register.wrap (-d.exponent) = -d.exponent := by
  obtain ⟨-, hge, hle⟩ := hd
  exact Register.wrap_eq (by omega) (by omega)

theorem isInteger_iff (hd : d.Moderate) : d.isInteger = true ↔ ∃ n : ℤ, d.value = n := by
  unfold isInteger
  rw [wrap_places hd]
  split
  · next h =>
    refine ⟨fun _ => ?_, fun _ => rfl⟩
    rcases h with he | hzero
    · exact ⟨_, value_of_exponent_nonneg he⟩
    · exact ⟨0, by simpa using hzero⟩
  · next h =>
    obtain ⟨he, hne⟩ := not_or.1 h
    have hne : d.coefficient ≠ 0 := by simpa using hne
    have hiff : (∃ n : ℤ, d.value = n) ↔ (10 : ℤ) ^ (-d.exponent).toNat ∣ d.coefficient := by
      constructor
      · rintro ⟨n, hn⟩
        exact ⟨n, by rw [(value_eq_intCast_iff (by omega)).1 hn, mul_comm]⟩
      · rintro ⟨n, hn⟩
        exact ⟨n, (value_eq_intCast_iff (by omega)).2 (by rw [hn, mul_comm])⟩
    rw [hiff]
    dsimp only
    split
    · -- a multiple of the power has at least as many digits
      next hdigits =>
      refine ⟨fun hfalse => absurd hfalse (by simp), fun hdvd => ?_⟩
      have hle := Int.le_of_dvd (abs_pos.2 hne) ((dvd_abs _ _).2 hdvd)
      have hlt := d.abs_coefficient_lt
      have hpow : (10 : ℤ) ^ d.digits ≤ 10 ^ (-d.exponent).toNat :=
        pow_le_pow_right₀ (by norm_num) (by omega)
      omega
    · next hdigits =>
      have hcast : (pow10 (-d.exponent) : ℤ) = 10 ^ (-d.exponent).toNat := by
        have := hd.digits_lt
        rw [← pow10_cast (by unfold largestPower; omega), Int.toNat_of_nonneg (by omega)]
      rw [hcast, beq_iff_eq, Int.dvd_iff_emod_eq_zero]

/-- The whole number that is given is the value. -/
theorem toInteger?_eq_some_iff (hd : d.Moderate) (he : d.exponent ≤ largestPower) {n : ℤ} :
    d.toInteger? = some n ↔ d.value = n := by
  unfold toInteger?
  by_cases hwhole : d.isInteger
  · rw [if_pos hwhole]
    split
    · next hpos =>
      have hcast : (pow10 d.exponent : ℤ) = 10 ^ d.exponent.toNat := by
        rw [← pow10_cast (by omega), Int.toNat_of_nonneg hpos]
      rw [hcast, value_of_exponent_nonneg hpos, Option.some_inj, Int.cast_inj]
    · next hneg =>
      obtain ⟨k, hk⟩ := (isInteger_iff hd).1 hwhole
      have hcoefficient := (value_eq_intCast_iff (by omega)).1 hk
      have hquotient : d.coefficient.tdiv (pow10 (Register.wrap (-d.exponent))) = k := by
        rw [wrap_places hd]
        by_cases hzero : k = 0
        · rw [hcoefficient, hzero, zero_mul, Int.zero_tdiv]
        · -- the places behind the point hold digits of the coefficient
          have hsmall : (-d.exponent).toNat ≤ largestPower := by
            have hlt := d.abs_coefficient_lt
            have hle : (10 : ℤ) ^ (-d.exponent).toNat ≤ |d.coefficient| := by
              rw [hcoefficient, abs_mul, abs_of_pos (by positivity : (0 : ℤ) < 10 ^ _)]
              exact le_mul_of_one_le_left (by positivity) (Int.one_le_abs hzero)
            have := (pow_lt_pow_iff_right₀ (by norm_num : (1 : ℤ) < 10)).1 (hle.trans_lt hlt)
            have := hd.digits_lt
            unfold largestPower
            omega
          have hcast : (pow10 (-d.exponent) : ℤ) = 10 ^ (-d.exponent).toNat := by
            rw [← pow10_cast hsmall, Int.toNat_of_nonneg (by omega)]
          rw [hcast, hcoefficient, Int.mul_tdiv_cancel _ (by positivity)]
      rw [hquotient, hk, Option.some_inj, Int.cast_inj]
  · rw [if_neg hwhole]
    refine ⟨fun h => absurd h (by simp), fun h => absurd ((isInteger_iff hd).2 ⟨n, h⟩) hwhole⟩

end Reckon.Decimal
