import Reckon.Proofs.Series.Artanh

/-!
# The logarithm in fixed point

A positive decimal is a power of ten times a number from one up to ten, and that number is halved at
most three times until it is less than two.  Every part of it is found from the same series
(`standsFor_two_mul_atanh`), with an error of at most `lnError` units: the logarithm of two, from
which with one more series that of ten is put together, and the logarithm of the number that is
left.  The halvings round, but so little that the logarithm moves by a few units only
(`halve_spec`).  The power of ten multiplies its error by the exponent, so in the end the
logarithm is off by a multiple of that (`standsFor_ln`).
-/

namespace Reckon.Series

open Decimal

variable {places : ℕ} {d : Decimal}

/-- The units that twice an inverse hyperbolic tangent may be off. -/
def lnError (places : ℕ) : ℕ := 4 * seriesLength places + 6

theorem lnError_le (hplaces : places ≤ 2 ^ 20) : lnError places ≤ 10 ^ 7 := by
  unfold lnError seriesLength
  omega

/-! ## Two and ten -/

/-- A fraction of one is cut off. -/
private theorem standsFor_unit_div (hplaces : places ≤ 2 ^ 20) {m : ℤ} (hm : 0 < m) :
    StandsFor places (unit places / m) (1 / m) 1 := by
  have hmpos : (0 : ℝ) < m := by exact_mod_cast hm
  have hsplit : (10 : ℝ) ^ places = m * (unit places / m : ℤ) + (unit places % m : ℤ) := by
    rw [← unit_cast hplaces]
    exact_mod_cast (Int.mul_ediv_add_emod (unit places) m).symm
  have hlow : (0 : ℝ) ≤ (unit places % m : ℤ) := by exact_mod_cast Int.emod_nonneg _ hm.ne'
  have hhigh : ((unit places % m : ℤ) : ℝ) ≤ m := by exact_mod_cast (Int.emod_lt_of_pos _ hm).le
  have hscaled : ((unit places / m : ℤ) : ℝ) - 10 ^ places * (1 / m) =
      -((unit places % m : ℤ) / m) := by
    rw [hsplit]
    field_simp
    ring
  unfold StandsFor
  rw [hscaled, abs_neg, abs_of_nonneg (div_nonneg hlow hmpos.le), div_le_one hmpos]
  exact hhigh

theorem standsFor_ln2 (hpos : 2 ≤ places) (hplaces : places ≤ 2 ^ 20) :
    StandsFor places (ln2 places) (Real.log 2) (lnError places) := by
  have hthird := standsFor_unit_div hplaces (m := 3) (by norm_num)
  rw [Int.cast_ofNat] at hthird
  have hsum := standsFor_two_mul_atanh hpos hplaces (by norm_num [abs_of_pos]) hthird
  rw [show (1 + 1 / 3 : ℝ) / (1 - 1 / 3) = 2 by norm_num] at hsum
  unfold lnError
  exact_mod_cast hsum

theorem log_ten_eq : Real.log 10 = 3 * Real.log 2 + Real.log (5 / 4) := by
  rw [show (3 : ℝ) * Real.log 2 = Real.log (2 ^ 3) by rw [Real.log_pow]; norm_num,
    ← Real.log_mul (by norm_num) (by norm_num)]
  norm_num

theorem standsFor_ln10 (hpos : 2 ≤ places) (hplaces : places ≤ 2 ^ 20) :
    StandsFor places (ln10 places) (Real.log 10) (4 * lnError places) := by
  have hninth := standsFor_unit_div hplaces (m := 9) (by norm_num)
  rw [Int.cast_ofNat] at hninth
  have hsum := standsFor_two_mul_atanh hpos hplaces (by norm_num [abs_of_pos]) hninth
  rw [show (1 + 1 / 9 : ℝ) / (1 - 1 / 9) = 5 / 4 by norm_num] at hsum
  have hthree := (standsFor_ln2 hpos hplaces).mul_left 3
  rw [log_ten_eq]
  unfold ln10
  refine (StandsFor.add (by exact_mod_cast hthree) hsum).mono ?_
  unfold lnError
  push_cast
  linarith

/-! ## Numbers from one up to two -/

theorem standsFor_lnNearOne (hpos : 2 ≤ places) (hplaces : places ≤ 2 ^ 20) {c : ℤ}
    (hlow : unit places ≤ c) (hhigh : c ≤ 2 * unit places) :
    StandsFor places (lnNearOne places c) (Real.log (c / 10 ^ places)) (lnError places) := by
  have hunit : (0 : ℝ) < 10 ^ places := by positivity
  have hlow' : (10 : ℝ) ^ places ≤ c := by
    rw [← unit_cast hplaces]
    exact_mod_cast hlow
  have hhigh' : (c : ℝ) ≤ 2 * 10 ^ places := by
    rw [← unit_cast hplaces]
    exact_mod_cast hhigh
  have hone := unit_pos places
  have hrounded := abs_divHalfEven_sub_le (m := c + unit places) (by omega)
    ((c - unit places) * unit places)
  have hargument : (((c - unit places) * unit places : ℤ) : ℝ) / (c + unit places : ℤ) =
      10 ^ places * ((c - 10 ^ places) / (c + 10 ^ places)) := by
    push_cast
    rw [unit_cast hplaces]
    ring
  rw [hargument] at hrounded
  have hsmall : |((c : ℝ) - 10 ^ places) / (c + 10 ^ places)| ≤ 1 / 3 := by
    rw [abs_of_nonneg (div_nonneg (by linarith) (by linarith)), div_le_iff₀ (by linarith)]
    linarith
  have hsum := standsFor_two_mul_atanh hpos hplaces hsmall (hrounded.trans (by norm_num))
  have hquotient : (1 + ((c : ℝ) - 10 ^ places) / (c + 10 ^ places)) /
      (1 - (c - 10 ^ places) / (c + 10 ^ places)) = c / 10 ^ places := by
    have : (c : ℝ) + 10 ^ places ≠ 0 := by linarith
    field_simp
    ring
  rw [hquotient] at hsum
  unfold lnNearOne lnError
  exact_mod_cast hsum

/-! ## Halving -/

/-- The number that is left lies between one and two, and doubled as often as it was halved it is
the one before up to less than a unit for each doubling. -/
theorem halve_spec (places start mantissa halvings : ℕ)
    (hlow : pow10 places ≤ mantissa)
    (hnear : |(2 : ℤ) ^ halvings * mantissa - start| ≤ 2 ^ halvings - 1) :
    pow10 places ≤ (halve places mantissa halvings).1 ∧
      (halve places mantissa halvings).1 < 2 * pow10 places ∧
      |(2 : ℤ) ^ (halve places mantissa halvings).2 * (halve places mantissa halvings).1 - start| ≤
        2 ^ (halve places mantissa halvings).2 - 1 := by
  fun_induction halve places mantissa halvings with
  | case1 mantissa halvings h ih =>
      have hhalf := two_mul_abs_sub_divHalfEven_le (m := 2) (by norm_num) mantissa
      have hlarge : (pow10 places : ℤ) ≤ divHalfEven mantissa 2 :=
        le_divHalfEven (by norm_num) (by exact_mod_cast h)
      have hcast : ((divHalfEven mantissa 2).toNat : ℤ) = divHalfEven mantissa 2 :=
        Int.toNat_of_nonneg (by omega)
      refine ih (by omega) ?_
      rw [hcast]
      have hscaled := mul_le_mul_of_nonneg_left
        (show |2 * divHalfEven mantissa 2 - (mantissa : ℤ)| ≤ 1 by
          rw [abs_sub_comm]
          omega) (by positivity : (0 : ℤ) ≤ 2 ^ halvings)
      rw [← abs_of_pos (by positivity : (0 : ℤ) < 2 ^ halvings), ← abs_mul,
        abs_of_pos (by positivity : (0 : ℤ) < 2 ^ halvings)] at hscaled
      calc |(2 : ℤ) ^ (halvings + 1) * divHalfEven mantissa 2 - start|
          = |2 ^ halvings * (2 * divHalfEven mantissa 2 - mantissa) +
              (2 ^ halvings * mantissa - start)| := by
            congr 1
            ring
        _ ≤ 2 ^ halvings * 1 + (2 ^ halvings - 1) :=
            (abs_add_le _ _).trans (add_le_add hscaled hnear)
        _ = 2 ^ (halvings + 1) - 1 := by ring
  | case2 mantissa halvings h => exact ⟨hlow, by omega, hnear⟩

/-- A number of one digit before the point is halved at most three times. -/
theorem halve_mem (hpos : 2 ≤ places) (hplaces : places ≤ 2 ^ 20) (start : ℕ)
    (hlow : pow10 places ≤ start) (hhigh : start ≤ 10 * pow10 places) :
    unit places ≤ (halve places start 0).1 ∧ (halve places start 0).1 < 2 * unit places ∧
      (halve places start 0).2 ≤ 3 ∧
      |(2 : ℤ) ^ (halve places start 0).2 * (halve places start 0).1 - start| ≤ 7 := by
  obtain ⟨hge, hlt, hnear⟩ := halve_spec places start start 0 hlow (by simp)
  have hhundred : 100 ≤ pow10 places := by
    have hten : (pow10 places : ℤ) = 10 ^ places := unit_eq hplaces
    have hle : (10 : ℤ) ^ 2 ≤ 10 ^ places := pow_le_pow_right₀ (by norm_num) hpos
    omega
  generalize halve places start 0 = halved at *
  obtain ⟨c, t⟩ := halved
  dsimp only at *
  have hthree : t ≤ 3 := by
    -- a fourth halving would need more than ten times the unit to begin with
    by_contra hmore
    have hsixteen : (2 : ℤ) ^ 4 ≤ 2 ^ t := pow_le_pow_right₀ (by norm_num) (by omega)
    have hbelow := (abs_le.1 hnear).2
    have hc : (100 : ℤ) ≤ c := by omega
    have hstart : (start : ℤ) ≤ 10 * c := by omega
    nlinarith
  have height : (2 : ℤ) ^ t ≤ 2 ^ 3 := pow_le_pow_right₀ (by norm_num) hthree
  unfold unit
  exact ⟨by omega, by omega, hthree, by omega⟩

/-! ## The logarithm of a decimal -/

/-- The mantissa is the number with its leading digit before the point, which lies between one and
ten. -/
theorem mantissa_mem (places : ℕ) (hd0 : 0 < d.value) :
    (10 : ℤ) ^ places ≤ nearestEven (|d.value| * 10 ^ (places - d.leading)) ∧
      nearestEven (|d.value| * 10 ^ (places - d.leading)) ≤ 10 * 10 ^ places ∧
      StandsFor places (nearestEven (|d.value| * 10 ^ (places - d.leading)))
        (d.value / 10 ^ d.leading) (1 / 2) := by
  have hne : d.coefficient ≠ 0 := mt value_eq_zero_iff.2 hd0.ne'
  have hscale : |d.value| * 10 ^ (places - d.leading) =
      10 ^ places * (d.value / 10 ^ d.leading) := by
    rw [abs_of_pos hd0, zpow_sub₀ (by norm_num), zpow_natCast]
    ring
  have hlow : 1 ≤ d.value / 10 ^ d.leading := by
    rw [one_le_div (ten_zpow_pos _), ← abs_of_pos hd0]
    exact zpow_leading_le hne
  have hhigh : d.value / 10 ^ d.leading ≤ 10 := by
    rw [div_le_iff₀ (ten_zpow_pos _), ← zpow_one_add₀ (by norm_num), add_comm, ← abs_of_pos hd0]
    exact d.abs_value_lt.le
  rw [hscale]
  refine ⟨le_nearestEven ?_, nearestEven_le ?_, ?_⟩
  · push_cast
    nlinarith [(by positivity : (0 : ℚ) < 10 ^ places)]
  · push_cast
    nlinarith [(by positivity : (0 : ℚ) < 10 ^ places)]
  · have hnear := (Rat.cast_le (K := ℝ)).2
      (two_mul_abs_sub_nearestEven_le (10 ^ places * (d.value / 10 ^ d.leading)))
    push_cast at hnear
    unfold StandsFor
    rw [abs_sub_comm]
    linarith

/-- The number that is left and its halvings have the logarithm of the mantissa. -/
private theorem log_halved_sub_le {x : ℝ} {c M : ℤ} {t : ℕ} (hx : 1 ≤ x)
    (hM : StandsFor places M x (1 / 2)) (hc : (10 : ℝ) ^ places ≤ c)
    (hnear : |(2 : ℤ) ^ t * c - M| ≤ 7) :
    10 ^ places * |Real.log (c / 10 ^ places) + t * Real.log 2 - Real.log x| ≤ 8 := by
  have hunit : (0 : ℝ) < 10 ^ places := by positivity
  have hleft : (1 : ℝ) ≤ c / 10 ^ places := (one_le_div hunit).2 hc
  have hdoubled : 1 ≤ 2 ^ t * (c / 10 ^ places : ℝ) :=
    hleft.trans (le_mul_of_one_le_left (by linarith) (one_le_pow₀ (by norm_num)))
  have hlog : Real.log (c / 10 ^ places) + t * Real.log 2 =
      Real.log (2 ^ t * (c / 10 ^ places)) := by
    rw [Real.log_mul (by positivity) (by linarith), Real.log_pow, add_comm]
  have hnear' : |(2 : ℝ) ^ t * c - M| ≤ 7 := by exact_mod_cast hnear
  have hdistance : 10 ^ places * |2 ^ t * (c / 10 ^ places : ℝ) - x| ≤ 8 := by
    rw [← abs_of_pos hunit, ← abs_mul, abs_of_pos hunit]
    have hscaled : 10 ^ places * (2 ^ t * (c / 10 ^ places : ℝ) - x) =
        (2 ^ t * c - M) + (M - 10 ^ places * x) := by
      field_simp
      ring
    rw [hscaled]
    unfold StandsFor at hM
    exact (abs_add_le _ _).trans (by linarith)
  have hlipschitz := abs_log_sub_log_le one_pos hdoubled hx
  rw [div_one] at hlipschitz
  rw [hlog]
  exact (mul_le_mul_of_nonneg_left hlipschitz hunit.le).trans hdistance

/-- The logarithm of a decimal is off by a multiple of the exponent of its leading digit. -/
theorem standsFor_ln (hd : d.Moderate) (hd0 : 0 < d.value) (hpos : 2 ≤ places)
    (hplaces : places ≤ 2 ^ 20) :
    StandsFor places (ln places d) (Real.log d.value)
      (5 * lnError places * (|(d.leading : ℝ)| + 1)) := by
  have hunit : (0 : ℝ) < 10 ^ places := by positivity
  have hpow : (pow10 places : ℤ) = 10 ^ places := unit_eq hplaces
  obtain ⟨hMlow, hMhigh, hM⟩ := mantissa_mem places hd0
  unfold ln
  dsimp only
  rw [mantissa_eq hd hplaces, adjustedExponent_eq hd.roomy]
  generalize nearestEven (|d.value| * 10 ^ (places - d.leading)) = M at *
  have hcast : (M.toNat : ℤ) = M := Int.toNat_of_nonneg (by rw [← hpow] at hMlow; omega)
  obtain ⟨hclow, hchigh, hthree, hnear⟩ := halve_mem hpos hplaces M.toNat
    (by omega) (by omega)
  rw [hcast] at hnear
  generalize halve places M.toNat 0 = halved at *
  obtain ⟨c, t⟩ := halved
  dsimp only at *
  have hclow' : (10 : ℝ) ^ places ≤ (c : ℤ) := by
    rw [← unit_cast hplaces]
    exact_mod_cast hclow
  -- the logarithm of the mantissa, and of the power of ten besides
  have hsplit : Real.log d.value = Real.log (d.value / 10 ^ d.leading) +
      d.leading * Real.log 10 := by
    have hpower : (0 : ℝ) < 10 ^ d.leading := by positivity
    have hvalue : (0 : ℝ) < d.value := by exact_mod_cast hd0
    rw [Real.log_div hvalue.ne' hpower.ne', Real.log_zpow, sub_add_cancel]
  have hone : (1 : ℝ) ≤ d.value / 10 ^ d.leading := by
    have hleading := zpow_leading_le (mt value_eq_zero_iff.2 hd0.ne')
    rw [abs_of_pos hd0] at hleading
    rw [one_le_div (by positivity)]
    simpa using (Rat.cast_le (K := ℝ)).2 hleading
  have hmantissa := log_halved_sub_le hone hM hclow' hnear
  have hhalved := (standsFor_lnNearOne hpos hplaces hclow hchigh.le).add
    ((standsFor_ln2 hpos hplaces).mul_left t)
  have hparts := hhalved.add ((standsFor_ln10 hpos hplaces).mul_left d.leading)
  have hmoved : 10 ^ places * |Real.log ((c : ℤ) / 10 ^ places) + (t : ℤ) * Real.log 2 +
      d.leading * Real.log 10 - Real.log d.value| ≤ 8 := by
    rw [hsplit, add_sub_add_right_eq_sub]
    exact_mod_cast hmantissa
  have hresult := hparts.trans hmoved
  rw [mul_comm (ln2 places), mul_comm (ln10 places)]
  refine hresult.mono ?_
  have hthree' : |((t : ℤ) : ℝ)| ≤ 3 := by
    rw [Int.cast_natCast, Nat.abs_cast]
    exact_mod_cast hthree
  have herror : (8 : ℝ) ≤ lnError places := by
    exact_mod_cast (by unfold lnError seriesLength; omega : 8 ≤ lnError places)
  have hleading := abs_nonneg (d.leading : ℝ)
  nlinarith

end Reckon.Series
