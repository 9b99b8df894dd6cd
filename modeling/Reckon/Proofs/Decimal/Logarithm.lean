import Reckon.Proofs.Decimal.Rounded
import Reckon.Proofs.Decimal.Fractional

/-!
# Logarithms in fixed point

Scaling by a power of ten rounds to the nearest integer (`shiftTo_eq_nearestEven`), also where the
power is larger than any that is formed: then the number is too small to show.  Hence the mantissa
that a logarithm is taken of is the number itself with its leading digit before the point, in
whatever terms the decimal is written (`mantissa_eq`), and the logarithm depends on the number only
(`ln_eq_of_value_eq`).

How large the logarithm is matters because its product with an exponent is scaled in turn
(`shiftTo_ln_mul`); the bound (`abs_ln_le`) is crude, and comes from the number of terms of the
series and the number of halvings.
-/

namespace Reckon

namespace Series

open Decimal

variable {places : ℕ}

/-! ## Scaling -/

/-- Divided by a power of ten that has more digits, a number is too small to show. -/
private theorem two_mul_abs_scaled_lt {n shift : ℤ} {k : ℕ} (hsmall : 2 * |n| < 10 ^ k)
    (hshift : shift ≤ -k) : 2 * |(n : ℚ) * 10 ^ shift| < 1 := by
  have hcast : 2 * |(n : ℚ)| < 10 ^ (k : ℤ) := by
    rw [zpow_natCast]
    exact_mod_cast hsmall
  calc 2 * |(n : ℚ) * 10 ^ shift| = 2 * |(n : ℚ)| * 10 ^ shift := by
        rw [abs_mul, abs_of_pos (ten_zpow_pos shift), mul_assoc]
    _ < 10 ^ (k : ℤ) * 10 ^ shift := mul_lt_mul_of_pos_right hcast (ten_zpow_pos shift)
    _ = 10 ^ (k + shift) := (ten_zpow_add _ _).symm
    _ ≤ 1 := zpow_le_one_of_nonpos₀ (by norm_num) (by omega)

/-- Scaling rounds to the nearest integer.  A number that is shorter than the largest power of ten
is rounded to zero by that power, and so it would be by every power beyond it. -/
theorem shiftTo_eq_nearestEven {n shift : ℤ} (hlow : -2 ^ 62 ≤ shift) (hhigh : shift ≤ largestPower)
    (hsmall : -largestPower ≤ shift ∨ 2 * |n| < 10 ^ largestPower) :
    shiftTo n shift = nearestEven (n * 10 ^ shift) := by
  unfold shiftTo
  split
  · next hshift =>
    have hpow : (pow10 shift : ℤ) = 10 ^ shift.toNat := by
      rw [← pow10_cast (by omega), Int.toNat_of_nonneg hshift]
    rw [hpow, ten_zpow_toNat hshift, ← Int.cast_mul, nearestEven_intCast]
  · next hshift =>
    have hpos : (0 : ℤ) < pow10 (-shift) := by exact_mod_cast pow10_pos _
    rw [Register.wrap_eq (by omega) (by omega), divHalfEven_eq_nearestEven hpos]
    by_cases hformed : -shift ≤ largestPower
    · have hpow : ((pow10 (-shift) : ℤ) : ℚ) = 10 ^ (-shift) := by
        rw [ten_zpow_toNat (by omega), ← pow10_cast (by omega), Int.toNat_of_nonneg (by omega)]
      rw [hpow, zpow_neg, div_inv_eq_mul]
    · have hsmall := hsmall.resolve_left (by omega)
      have hquotient : (n : ℚ) / (pow10 (-shift) : ℤ) = n * 10 ^ (-(largestPower : ℤ)) := by
        rw [pow10_of_le (by omega), zpow_neg, zpow_natCast, div_eq_mul_inv]
        push_cast
        rfl
      rw [hquotient, nearestEven_eq_zero (two_mul_abs_scaled_lt hsmall le_rfl),
        nearestEven_eq_zero (two_mul_abs_scaled_lt hsmall (by omega))]

/-- The mantissa of a logarithm is the number with its leading digit before the point. -/
theorem mantissa_eq {d : Decimal} (hd : d.Moderate) (hplaces : places ≤ 2 ^ 20) :
    shiftTo d.coefficient.natAbs (Register.wrap (places - (d.digits - 1))) =
      nearestEven (|d.value| * 10 ^ (places - d.leading)) := by
  have hdigits := hd.digits_lt
  have hpos := d.digits_pos
  have hscale : (10 : ℚ) ^ d.exponent * 10 ^ (places - d.leading) =
      10 ^ ((places : ℤ) - (d.digits - 1)) := by
    rw [← ten_zpow_add]
    congr 1
    unfold leading
    omega
  rw [Register.wrap_eq (by omega) (by omega), shiftTo_eq_nearestEven (by omega)
    (by unfold largestPower; omega) (Or.inl (by unfold largestPower; omega)), abs_value, mul_assoc,
    hscale, Int.abs_eq_natAbs]

/-! ## The size of a logarithm -/

/-- Every halving takes at least one off the mantissa. -/
theorem halve_snd_le (places mantissa halvings : ℕ) :
    (halve places mantissa halvings).2 ≤ halvings + mantissa := by
  fun_induction halve places mantissa halvings with
  | case1 mantissa halvings h ih =>
      have hone := pow10_pos places
      have hhalf := divHalfEven_two_le mantissa
      omega
  | case2 mantissa halvings h => omega

private theorem abs_atanh_le_unit (places : ℕ) {z : ℤ} (hz : |z| ≤ unit places) :
    |atanh places z| ≤ seriesLength places * unit places :=
  (abs_atanh_le places hz).trans (mul_le_mul_of_nonneg_left hz (by positivity))

private theorem abs_lnNearOne_le (places : ℕ) {x : ℤ} (hx : 0 ≤ x) :
    |lnNearOne places x| ≤ 2 * (seriesLength places * unit places) := by
  have hone := unit_pos places
  have hargument : |divHalfEven ((x - unit places) * unit places) (x + unit places)| ≤
      unit places := by
    apply abs_divHalfEven_le (by omega)
    rw [abs_mul, abs_of_pos hone]
    refine mul_le_mul_of_nonneg_right ?_ hone.le
    rw [abs_le]
    omega
  have hatanh := abs_atanh_le_unit places hargument
  unfold lnNearOne
  dsimp only
  rw [abs_mul, abs_two]
  omega

private theorem abs_ln2_le (places : ℕ) :
    |ln2 places| ≤ 2 * (seriesLength places * unit places) := by
  have hone := unit_pos places
  have hatanh := abs_atanh_le_unit places (z := unit places / 3)
    (by rw [abs_le]; omega)
  unfold ln2
  rw [abs_mul, abs_two]
  omega

/-- The mantissa has one digit before the point, which bounds the number of its halvings. -/
private theorem halvings_le {d : Decimal} (hd : d.Moderate) (hplaces : places ≤ 2 ^ 20) :
    ((halve places (shiftTo d.coefficient.natAbs
      (Register.wrap (places - (d.digits - 1)))).toNat 0).2 : ℤ) ≤ 10 ^ (places + 1) := by
  have hbelow : |d.value| * 10 ^ (places - d.leading) ≤ ((10 ^ (places + 1) : ℤ) : ℚ) := by
    calc |d.value| * 10 ^ (places - d.leading)
        ≤ 10 ^ (d.leading + 1) * 10 ^ (places - d.leading) :=
          mul_le_mul_of_nonneg_right d.abs_value_lt.le (ten_zpow_pos _).le
      _ = ((10 ^ (places + 1) : ℤ) : ℚ) := by
          rw [← ten_zpow_add, show d.leading + 1 + (places - d.leading) = (places + 1 : ℕ) by
            push_cast; ring, zpow_natCast]
          push_cast
          rfl
  have hmantissa := nearestEven_le hbelow
  rw [← mantissa_eq hd hplaces] at hmantissa
  have hhalve := halve_snd_le places (shiftTo d.coefficient.natAbs
    (Register.wrap (places - (d.digits - 1)))).toNat 0
  have hpos : (0 : ℤ) < 10 ^ (places + 1) := by positivity
  omega

theorem abs_ln_le {d : Decimal} (hd : d.Moderate) (hpos : 0 < places) (hplaces : places ≤ 2 ^ 20) :
    |ln places d| ≤ 10 ^ (2 * places + 27) := by
  have hlength : (seriesLength places : ℤ) ≤ 10 ^ 7 := by
    have := three_mul_seriesLength_le hplaces
    omega
  have hunit := unit_eq hplaces
  have hsize : (seriesLength places : ℤ) * unit places ≤ 10 ^ 7 * 10 ^ places := by
    rw [hunit]
    gcongr
  obtain ⟨hln10pos, hln10⟩ := ln10_mem hpos hplaces
  rw [mul_assoc] at hln10
  have hleading : |d.adjustedExponent| ≤ 10 ^ 19 := by
    rw [adjustedExponent_eq hd.roomy, abs_le]
    obtain ⟨hdigits, hlow, hhigh⟩ := hd
    unfold leading
    omega
  have hhalvings := halvings_le hd hplaces
  unfold ln
  dsimp only
  generalize halve places (shiftTo d.coefficient.natAbs
    (Register.wrap (places - (d.digits - 1)))).toNat 0 = halved at hhalvings
  obtain ⟨nearOne, halvings⟩ := halved
  dsimp only at hhalvings ⊢
  calc |lnNearOne places nearOne + ln2 places * halvings + ln10 places * d.adjustedExponent|
      ≤ |lnNearOne places nearOne| + |ln2 places * halvings| +
          |ln10 places * d.adjustedExponent| := abs_add_three _ _ _
    _ = |lnNearOne places nearOne| + |ln2 places| * halvings +
          ln10 places * |d.adjustedExponent| := by
        rw [abs_mul, abs_mul, abs_of_pos hln10pos, Nat.abs_cast]
    _ ≤ 2 * (10 ^ 7 * 10 ^ places) + 2 * (10 ^ 7 * 10 ^ places) * 10 ^ (places + 1) +
          3 * (10 ^ 7 * 10 ^ places) * 10 ^ 19 := by
        have hnear := abs_lnNearOne_le places (x := nearOne) (by positivity)
        have htwo := abs_ln2_le places
        gcongr
        · omega
        · omega
        · omega
    _ ≤ 10 ^ (2 * places + 27) := by
        have hone : (1 : ℤ) ≤ 10 ^ places := one_le_pow₀ (by norm_num)
        have hsquare : (10 : ℤ) ^ places ≤ 10 ^ places * 10 ^ places :=
          le_mul_of_one_le_right (by positivity) hone
        have hsplit : (10 : ℤ) ^ (2 * places + 27) = 10 ^ 27 * (10 ^ places * 10 ^ places) := by
          ring
        rw [pow_succ 10 places, hsplit]
        linarith

/-! ## The product with an exponent -/

/-- The product of the logarithm with an exponent that has few digits before the point is rounded
once. -/
theorem shiftTo_ln_mul {a b : Decimal} (ha : a.Moderate) (hb : b.Moderate) (hpos : 0 < places)
    (hplaces : places ≤ 2 ^ 20) (hsmall : b.adjustedExponent ≤ 20) :
    shiftTo (ln places a * b.coefficient) b.exponent = nearestEven (ln places a * b.value) := by
  have hlow := hb.exponent_ge
  have hhigh : b.exponent ≤ 20 := by
    have := b.digits_pos
    rw [adjustedExponent_eq hb.roomy, leading] at hsmall
    omega
  -- the product has far fewer digits than the largest power of ten
  have hsize : |ln places a * b.coefficient| < 10 ^ (2 * places + 27 + b.digits) := by
    rw [abs_mul, pow_add]
    have hln := abs_ln_le ha hpos hplaces
    exact mul_lt_mul' hln b.abs_coefficient_lt (abs_nonneg _) (by positivity)
  have hdouble : 2 * |ln places a * b.coefficient| < 10 ^ largestPower := by
    have hdigits := hb.digits_lt
    have hpow : (10 : ℤ) ^ (2 * places + 27 + b.digits + 1) ≤ 10 ^ largestPower :=
      pow_le_pow_right₀ (by norm_num) (by unfold largestPower; omega)
    rw [pow_succ] at hpow
    linarith [abs_nonneg (ln places a * b.coefficient)]
  rw [shiftTo_eq_nearestEven (by omega) (by unfold largestPower; omega) (Or.inr hdouble), value,
    Int.cast_mul, mul_assoc]

/-! ## Logarithms of equal numbers -/

/-- The logarithm depends on the number only, not on the terms that it is written in. -/
theorem ln_eq_of_value_eq {d d' : Decimal} (hd : d.Moderate) (hd' : d'.Moderate)
    (hplaces : places ≤ 2 ^ 20) (hne : d.coefficient ≠ 0) (hvalue : d.value = d'.value) :
    ln places d = ln places d' := by
  have hleading := leading_eq_of_value_eq hne hvalue
  unfold ln
  rw [mantissa_eq hd hplaces, mantissa_eq hd' hplaces, hvalue, hleading,
    adjustedExponent_eq hd.roomy, adjustedExponent_eq hd'.roomy, hleading]

end Series

end Reckon
