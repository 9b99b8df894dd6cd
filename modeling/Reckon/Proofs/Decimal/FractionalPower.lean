import Mathlib.Analysis.Complex.ExponentialBounds
import Mathlib.Analysis.SpecialFunctions.Pow.Real
import Reckon.Decimal.Power
import Reckon.Proofs.Decimal.CorrectRounding
import Reckon.Proofs.Series.Logarithm
import Reckon.Proofs.Series.Exponential

/-!
# Powers with fractional exponents

The power is worked out in fixed point, with `productDigits` places for the digits that the product
of logarithm and exponent has before the point, and thirteen more than the result keeps.

```text
logarithm of the base     off by 10 ^ 8 units for each unit of the exponent of its leading digit
product with the exponent off by 10 ^ (8 + productDigits) units
rest modulo ln 10         as much again for the multiple of ln 10 that is taken off
mantissa                  off by the same share of itself, and by the error of its own series
```

So of the thirteen places nine are used up, and the mantissa is off by far less than a fifth of the
digit after the last that is kept (`close_mantissa`).  What is rounded is then close to the power
(`close_power`), and the result accurate (`pow_fractional_accurate`).
-/

namespace Reckon

open Series

variable {places : ℕ}

/-! ## The logarithm of ten -/

theorem log_ten_mem : 2 + 1 / 20 ≤ Real.log 10 ∧ Real.log 10 ≤ 12 / 5 := by
  have hlog := log_ten_eq
  have hpos : 0 ≤ Real.log (5 / 4) := Real.log_nonneg (by norm_num)
  have hsmall := Real.log_le_sub_one_of_pos (show (0 : ℝ) < 5 / 4 by norm_num)
  have hlow := Real.log_two_gt_d9
  have hhigh := Real.log_two_lt_d9
  constructor <;> linarith

theorem ten_zpow_eq_exp (n : ℤ) : (10 : ℝ) ^ n = Real.exp (n * Real.log 10) := by
  rw [mul_comm, ← Real.rpow_def_of_pos (by norm_num), Real.rpow_intCast]

/-! ## The mantissa -/

/-- The exponential of a number that is off by less than one is off by a share of itself. -/
private theorem abs_exp_sub_exp_le {x y : ℝ} (h : |x - y| ≤ 1) :
    |Real.exp x - Real.exp y| ≤ 2 * |x - y| * Real.exp y := by
  have hshare := Real.abs_exp_sub_one_le h
  have hsplit : Real.exp x - Real.exp y = (Real.exp (x - y) - 1) * Real.exp y := by
    rw [sub_mul, ← Real.exp_add, sub_add_cancel, one_mul]
  rw [hsplit, abs_mul, abs_of_pos (Real.exp_pos y)]
  exact mul_le_mul_of_nonneg_right hshare (Real.exp_pos y).le

private theorem one_eighth_le_exp {x : ℝ} (hx : -2 ≤ x) : 1 / 8 ≤ Real.exp x := by
  have hexp : Real.exp 2 ≤ 8 := by
    have hone := Real.exp_one_lt_d9
    rw [show (2 : ℝ) = 1 + 1 by norm_num, Real.exp_add]
    nlinarith [Real.exp_pos 1]
  calc (1 : ℝ) / 8 ≤ 1 / Real.exp 2 := one_div_le_one_div_of_le (Real.exp_pos 2) hexp
    _ = Real.exp (-2) := by rw [Real.exp_neg, one_div]
    _ ≤ Real.exp x := Real.exp_le_exp.2 hx

/-- A distance in units of the last place, in terms of the places that are kept. -/
private theorem mul_le_of_units {p q : ℕ} (hp : places = p + 13 + q) {x c : ℝ}
    (h : 10 ^ places * x ≤ c * 10 ^ q) : 10 ^ p * x ≤ c / 10 ^ 13 := by
  have hpos : (0 : ℝ) < 10 ^ q := by positivity
  rw [hp, pow_add, pow_add] at h
  rw [le_div_iff₀ (by positivity)]
  exact le_of_mul_le_mul_right (by linarith) hpos

/-- The exponential of a number that is off by some hundred million units, when there are thirteen
places after those that are kept. -/
private theorem close_mantissa (hplaces : places ≤ 2 ^ 20) {p q : ℕ}
    (hp : places = p + 13 + q) {z : ℤ} {x : ℝ}
    (hz : StandsFor places z x (22 * 10 ^ 7 * 10 ^ q)) (hsize : |(z : ℝ)| ≤ 3 / 2 * 10 ^ places) :
    5 * 10 ^ p * |(exp places z : ℝ) / 10 ^ places - Real.exp x| ≤ Real.exp x := by
  have hunit : (0 : ℝ) < 10 ^ places := by positivity
  have hpos : (0 : ℝ) < 10 ^ p := by positivity
  have hz' : (z : ℝ) = 10 ^ places * (z / 10 ^ places) := by field_simp
  have hargument : |(z : ℝ) / 10 ^ places| ≤ 3 / 2 := by
    rw [abs_div, abs_of_pos hunit, div_le_iff₀ hunit]
    exact hsize
  have hseries := standsFor_exp hplaces hargument hz'
  unfold StandsFor at hz hseries
  rw [hz', ← mul_sub, abs_mul, abs_of_pos hunit] at hz
  generalize (z : ℝ) / 10 ^ places = t at hz hseries hargument
  -- the argument and the series are off by a share of the last place that is kept
  have hmoved := mul_le_of_units hp hz
  have hsummed : 10 ^ p * |(exp places z : ℝ) / 10 ^ places - Real.exp t| ≤ 10 ^ 7 / 10 ^ 13 := by
    have hone : (1 : ℝ) ≤ 10 ^ q := one_le_pow₀ (by norm_num)
    have hlength : (2 * seriesLength places + 1 : ℝ) ≤ 10 ^ 7 := by
      exact_mod_cast (by unfold seriesLength; omega : 2 * seriesLength places + 1 ≤ 10 ^ 7)
    have hscaled : 10 ^ places * ((exp places z : ℝ) / 10 ^ places - Real.exp t) =
        (exp places z : ℝ) - 10 ^ places * Real.exp t := by field_simp
    apply mul_le_of_units hp
    rw [← abs_of_pos hunit, ← abs_mul, abs_of_pos hunit, hscaled]
    exact (hseries.trans hlength).trans (le_mul_of_one_le_right (by norm_num) hone)
  have hnear : |t - x| ≤ 1 / 2 := by
    have hten : (1 : ℝ) ≤ 10 ^ p := one_le_pow₀ (by norm_num)
    norm_num at hmoved
    nlinarith [abs_nonneg (t - x)]
  have hlarge : 1 / 8 ≤ Real.exp x := by
    have hlow := (abs_le.1 hargument).1
    have hhigh := (abs_le.1 hnear).2
    exact one_eighth_le_exp (by linarith)
  have hexponential := mul_le_mul_of_nonneg_left
    (abs_exp_sub_exp_le (x := t) (y := x) (by linarith)) hpos.le
  have hproduct := mul_le_mul_of_nonneg_right hmoved (Real.exp_pos x).le
  have htriangle := mul_le_mul_of_nonneg_left
    (abs_sub_le ((exp places z : ℝ) / 10 ^ places) (Real.exp t) (Real.exp x)) hpos.le
  norm_num at hsummed hproduct
  linarith

/-! ## The rest modulo the logarithm of ten -/

/-- The logarithm of ten is off by a number of units that does not depend on the places. -/
private theorem standsFor_ln10_units (hpos : 2 ≤ places) (hplaces : places ≤ 2 ^ 20) :
    StandsFor places (ln10 places) (Real.log 10) (4 * 10 ^ 7) := by
  have herror : (lnError places : ℝ) ≤ 10 ^ 7 := by exact_mod_cast lnError_le hplaces
  exact (standsFor_ln10 hpos hplaces).mono (by linarith)

theorem ln10_between (hlarge : 14 ≤ places) (hplaces : places ≤ 2 ^ 20) :
    2 * (10 : ℝ) ^ places ≤ ln10 places ∧ (ln10 places : ℝ) ≤ 3 * 10 ^ places := by
  have hN : (10 : ℝ) ^ 14 ≤ 10 ^ places := pow_le_pow_right₀ (by norm_num) hlarge
  obtain ⟨hlow, hhigh⟩ := log_ten_mem
  obtain ⟨htenlow, htenhigh⟩ := abs_le.1 (standsFor_ln10_units (by omega) hplaces)
  norm_num at htenlow htenhigh hN
  constructor <;> nlinarith

/-- The nearest multiple of a divisor of at least two units. -/
private theorem abs_multiple_le {product divisor k : ℤ} {N Q : ℝ} (hN : 0 < N) (hQ : 1 ≤ Q)
    (hdivisor : 2 * N ≤ divisor) (hproduct : |(product : ℝ)| ≤ 5 / 2 * Q * N)
    (hk : 2 * |(product : ℝ) - k * divisor| ≤ divisor) : |(k : ℝ)| ≤ 4 * Q := by
  have htaken := abs_sub_abs_le_abs_sub (k * divisor : ℝ) product
  rw [abs_mul, abs_of_pos (by linarith : (0 : ℝ) < divisor), abs_sub_comm] at htaken
  have hbelow := mul_le_mul_of_nonneg_left hdivisor (abs_nonneg (k : ℝ))
  by_contra hmore
  nlinarith

/-- What is left of the product when the nearest multiple of the logarithm of ten is taken off: the
multiple is not larger than the product allows, so it does not carry much of the error of the
logarithm over. -/
private theorem standsFor_rest (hplaces : places ≤ 2 ^ 20) {q : ℕ} (hq : 14 + q ≤ places)
    {product : ℤ} {x : ℝ} (hproduct : StandsFor places product x (6 * 10 ^ 7 * 10 ^ q))
    (hx : |x| ≤ 12 / 5 * 10 ^ q) :
    StandsFor places (product - divHalfEven product (ln10 places) * ln10 places)
        (x - divHalfEven product (ln10 places) * Real.log 10) (22 * 10 ^ 7 * 10 ^ q) ∧
      |((product - divHalfEven product (ln10 places) * ln10 places : ℤ) : ℝ)| ≤
        3 / 2 * 10 ^ places := by
  have hunit : (0 : ℝ) < 10 ^ places := by positivity
  have hone : (1 : ℝ) ≤ 10 ^ q := one_le_pow₀ (by norm_num)
  have hln10 := standsFor_ln10_units (show 2 ≤ places by omega) hplaces
  obtain ⟨hlarge, hsmall⟩ := ln10_between (by omega) hplaces
  have hmagnitude : |(product : ℝ)| ≤ 5 / 2 * 10 ^ q * 10 ^ places := by
    have hN : (10 : ℝ) ^ 14 ≤ 10 ^ places := pow_le_pow_right₀ (by norm_num) (by omega)
    have htriangle := abs_sub_abs_le_abs_sub (product : ℝ) (10 ^ places * x)
    rw [abs_mul, abs_of_pos hunit] at htriangle
    have hscaled := mul_le_mul_of_nonneg_left hx hunit.le
    unfold StandsFor at hproduct
    norm_num at hproduct hN
    nlinarith
  have hdivisor : 0 < ln10 places := by
    have hpositive : (0 : ℝ) < ln10 places := by linarith
    exact_mod_cast hpositive
  have hrest : 2 * |(product : ℝ) - divHalfEven product (ln10 places) * ln10 places| ≤
      ln10 places := by
    have hnear := two_mul_abs_sub_divHalfEven_le hdivisor product
    rw [mul_comm (ln10 places)] at hnear
    exact_mod_cast hnear
  generalize divHalfEven product (ln10 places) = k at *
  have hmultiple := abs_multiple_le hunit hone hlarge hmagnitude hrest
  constructor
  · have hcombined := hproduct.add (hln10.mul_left (-k))
    rw [Int.cast_neg, abs_neg, neg_mul, neg_mul, ← sub_eq_add_neg, ← sub_eq_add_neg] at hcombined
    refine hcombined.mono ?_
    linarith
  · push_cast
    linarith

namespace Decimal

variable {a b r : Decimal}

/-! ## The product -/

/-- The digits that the product of logarithm and exponent may have before the point. -/
def productDigits (a b : Decimal) : ℕ :=
  (b.adjustedExponent + 1).toNat + digitCount a.adjustedExponent.natAbs

theorem powPlaces_eq (p : ℕ) (a b : Decimal) : powPlaces p a b = p + 13 + productDigits a b := by
  unfold powPlaces guardPlaces productDigits
  omega

private theorem mul_le_pow_productDigits (ha : a.Moderate) (hb : b.Moderate) :
    (|(a.leading : ℝ)| + 1) * |(b.value : ℝ)| ≤ 10 ^ productDigits a b := by
  have hcount : |(a.leading : ℝ)| + 1 ≤ 10 ^ digitCount a.adjustedExponent.natAbs := by
    have hlt := lt_pow_digitCount a.leading.natAbs
    have hle : |a.leading| + 1 ≤ ((10 ^ digitCount a.leading.natAbs : ℕ) : ℤ) := by
      rw [Int.abs_eq_natAbs]
      exact_mod_cast hlt
    rw [adjustedExponent_eq ha.roomy]
    exact_mod_cast hle
  have hexponent : |(b.value : ℝ)| ≤ 10 ^ (b.adjustedExponent + 1).toNat := by
    have hle : |b.value| ≤ (10 : ℚ) ^ ((b.adjustedExponent + 1).toNat : ℤ) := by
      rw [adjustedExponent_eq hb.roomy]
      exact b.abs_value_lt.le.trans (ten_zpow_le_iff.2 (Int.self_le_toNat _))
    rw [zpow_natCast] at hle
    exact_mod_cast hle
  calc (|(a.leading : ℝ)| + 1) * |(b.value : ℝ)|
      ≤ 10 ^ digitCount a.adjustedExponent.natAbs * 10 ^ (b.adjustedExponent + 1).toNat :=
        mul_le_mul hcount hexponent (abs_nonneg _) (by positivity)
    _ = 10 ^ productDigits a b := by rw [productDigits, pow_add, mul_comm]

/-- The logarithm is as large as the exponent of the leading digit allows. -/
private theorem abs_log_le (ha0 : 0 < a.value) :
    |Real.log a.value| ≤ (|(a.leading : ℝ)| + 1) * Real.log 10 := by
  have hne := mt value_eq_zero_iff.2 ha0.ne'
  have hlow : (10 : ℝ) ^ a.leading ≤ a.value := by
    have := (Rat.cast_le (K := ℝ)).2 (zpow_leading_le hne)
    rw [abs_of_pos ha0] at this
    simpa using this
  have hhigh : (a.value : ℝ) ≤ 10 ^ (a.leading + 1) := by
    have := (Rat.cast_le (K := ℝ)).2 a.abs_value_lt.le
    rw [abs_of_pos ha0] at this
    simpa using this
  have hloglow := Real.log_le_log (by positivity) hlow
  have hloghigh := Real.log_le_log (by exact_mod_cast ha0) hhigh
  rw [Real.log_zpow] at hloglow hloghigh
  have hten := (log_ten_mem).1
  push_cast at hloghigh
  rw [abs_le]
  constructor
  · nlinarith [neg_abs_le (a.leading : ℝ)]
  · nlinarith [le_abs_self (a.leading : ℝ)]

private theorem abs_product_le (ha : a.Moderate) (ha0 : 0 < a.value) (hb : b.Moderate) :
    |(b.value : ℝ) * Real.log a.value| ≤ 12 / 5 * 10 ^ productDigits a b := by
  obtain ⟨htenlow, htenhigh⟩ := log_ten_mem
  rw [abs_mul]
  calc |(b.value : ℝ)| * |Real.log a.value|
      ≤ |(b.value : ℝ)| * ((|(a.leading : ℝ)| + 1) * Real.log 10) :=
        mul_le_mul_of_nonneg_left (abs_log_le ha0) (abs_nonneg _)
    _ = (|(a.leading : ℝ)| + 1) * |(b.value : ℝ)| * Real.log 10 := by ring
    _ ≤ 10 ^ productDigits a b * (12 / 5) :=
        mul_le_mul (mul_le_pow_productDigits ha hb) htenhigh (by linarith) (by positivity)
    _ = 12 / 5 * 10 ^ productDigits a b := mul_comm _ _

/-- The product of the logarithm with the exponent. -/
private theorem standsFor_product (ha : a.Moderate) (ha0 : 0 < a.value) (hb : b.Moderate)
    (hpos : 2 ≤ places) (hplaces : places ≤ 2 ^ 20) :
    StandsFor places (nearestEven (ln places a * b.value)) (b.value * Real.log a.value)
      (6 * 10 ^ 7 * 10 ^ productDigits a b) := by
  have hsize := mul_le_pow_productDigits ha hb
  have hln := standsFor_ln ha ha0 hpos hplaces
  have herror : (lnError places : ℝ) ≤ 10 ^ 7 := by exact_mod_cast lnError_le hplaces
  have hone : (1 : ℝ) ≤ 10 ^ productDigits a b := one_le_pow₀ (by norm_num)
  have hrounded := (Rat.cast_le (K := ℝ)).2
    (two_mul_abs_sub_nearestEven_le (ln places a * b.value))
  push_cast at hrounded
  rw [abs_sub_comm] at hrounded
  unfold StandsFor at *
  have hscaled : |(ln places a : ℝ) * b.value - 10 ^ places * (b.value * Real.log a.value)| ≤
      5 * 10 ^ 7 * 10 ^ productDigits a b := by
    have hsplit : (ln places a : ℝ) * b.value - 10 ^ places * (b.value * Real.log a.value) =
        (ln places a - 10 ^ places * Real.log a.value) * b.value := by ring
    rw [hsplit, abs_mul]
    calc |(ln places a : ℝ) - 10 ^ places * Real.log a.value| * |(b.value : ℝ)|
        ≤ 5 * lnError places * (|(a.leading : ℝ)| + 1) * |(b.value : ℝ)| :=
          mul_le_mul_of_nonneg_right hln (abs_nonneg _)
      _ = 5 * lnError places * ((|(a.leading : ℝ)| + 1) * |(b.value : ℝ)|) := by ring
      _ ≤ 5 * 10 ^ 7 * 10 ^ productDigits a b := by gcongr
  refine (abs_sub_le _ ((ln places a : ℝ) * b.value) _).trans ?_
  norm_num at hscaled ⊢
  linarith

/-! ## The power -/

/-- What the mantissa is the exponential of: the logarithm of the power, without the decade. -/
private theorem standsFor_argument (limits : Limits) (ha : a.Moderate) (ha0 : 0 < a.value)
    (hb : b.Moderate) (hsmall : b.adjustedExponent ≤ 20) {product : ℤ}
    (hplaces : places = powPlaces limits.precision a b)
    (hproduct : product = shiftTo (ln places a * b.coefficient) b.exponent) :
    StandsFor places (product - divHalfEven product (ln10 places) * ln10 places)
        (b.value * Real.log a.value - divHalfEven product (ln10 places) * Real.log 10)
        (22 * 10 ^ 7 * 10 ^ productDigits a b) ∧
      |((product - divHalfEven product (ln10 places) * ln10 places : ℤ) : ℝ)| ≤
        3 / 2 * 10 ^ places := by
  obtain ⟨hpos, hlimit⟩ := powPlaces_mem limits ha hsmall
  rw [← hplaces] at hpos hlimit
  have hdigits := powPlaces_eq limits.precision a b
  rw [← hplaces] at hdigits
  have hp := limits.precision_pos
  have hstands := standsFor_product ha ha0 hb (show 2 ≤ places by omega) hlimit
  rw [← shiftTo_ln_mul ha hb hpos hlimit hsmall, ← hproduct] at hstands
  exact standsFor_rest hlimit (by omega) hstands (abs_product_le ha ha0 hb)

/-- Taken off the logarithm of the power, the decade leaves about half of the logarithm of ten at
most. -/
theorem abs_log_power_sub_le (limits : Limits) (ha : a.Moderate) (ha0 : 0 < a.value)
    (hb : b.Moderate) (hsmall : b.adjustedExponent ≤ 20) {product : ℤ}
    (hplaces : places = powPlaces limits.precision a b)
    (hproduct : product = shiftTo (ln places a * b.coefficient) b.exponent) :
    |b.value * Real.log a.value - divHalfEven product (ln10 places) * Real.log 10| ≤ 2 := by
  obtain ⟨hrest, hbounded⟩ := standsFor_argument limits ha ha0 hb hsmall hplaces hproduct
  have hdigits := powPlaces_eq limits.precision a b
  rw [← hplaces] at hdigits
  generalize divHalfEven product (ln10 places) = k at *
  generalize (b.value : ℝ) * Real.log a.value - k * Real.log 10 = t at *
  have hunit : (0 : ℝ) < 10 ^ places := by positivity
  have hten : (1 : ℝ) ≤ 10 ^ limits.precision := one_le_pow₀ (by norm_num)
  unfold StandsFor at hrest
  have htriangle := abs_sub_abs_le_abs_sub (10 ^ places * t) ((product - k * ln10 places : ℤ) : ℝ)
  rw [abs_mul, abs_of_pos hunit, abs_sub_comm] at htriangle
  have hexcess := mul_le_of_units (x := |t| - 3 / 2) (c := 22 * 10 ^ 7) hdigits (by linarith)
  norm_num at hexcess
  by_contra hfar
  nlinarith

/-- What is rounded for a power is close to it. -/
theorem close_power (limits : Limits) (ha : a.Moderate) (ha0 : 0 < a.value)
    (hb : b.Moderate) (hsmall : b.adjustedExponent ≤ 20) {product : ℤ}
    (hplaces : places = powPlaces limits.precision a b)
    (hproduct : product = shiftTo (ln places a * b.coefficient) b.exponent) :
    Close limits.precision ((a.value : ℝ) ^ (b.value : ℝ))
      (⟨exp places (product - divHalfEven product (ln10 places) * ln10 places),
        divHalfEven product (ln10 places) - places⟩ : Decimal).value := by
  obtain ⟨hrest, hbounded⟩ := standsFor_argument limits ha ha0 hb hsmall hplaces hproduct
  have hlimit := (powPlaces_mem limits ha hsmall).2
  have hdigits := powPlaces_eq limits.precision a b
  rw [← hplaces] at hlimit hdigits
  have hmantissa := close_mantissa hlimit hdigits hrest hbounded
  generalize divHalfEven product (ln10 places) = k at *
  generalize product - k * ln10 places = z at *
  -- the multiple of the logarithm of ten is the power of ten of the result
  have hpower : (a.value : ℝ) ^ (b.value : ℝ) =
      Real.exp (b.value * Real.log a.value - k * Real.log 10) * 10 ^ k := by
    rw [Real.rpow_def_of_pos (by exact_mod_cast ha0), ten_zpow_eq_exp, ← Real.exp_add,
      sub_add_cancel, mul_comm]
  have hvalue : (((⟨exp places z, k - places⟩ : Decimal).value : ℚ) : ℝ) =
      exp places z / 10 ^ places * 10 ^ k := by
    rw [value, zpow_sub₀ (by norm_num), zpow_natCast]
    push_cast
    ring
  have hunit : (0 : ℝ) < 10 ^ k := by positivity
  rw [close_iff, hvalue, hpower, ← sub_mul, abs_mul, abs_mul, abs_of_pos hunit, ← mul_assoc,
    abs_of_pos (Real.exp_pos _)]
  exact mul_le_mul_of_nonneg_right hmantissa hunit.le

private theorem eq_zero_of_powOutOfRange {grows : Bool} (hr : powOutOfRange grows = .ok r) :
    r.value = 0 := by
  unfold powOutOfRange at hr
  split at hr
  · cases hr
  · cases hr
    exact value_zero

/-- A result other than zero is the rounding of a number close to the power. -/
private theorem exists_close_of_powByLogarithm (limits : Limits) (ha : a.Moderate)
    (ha0 : 0 < a.value) (hb : b.Moderate) (hsmall : b.adjustedExponent ≤ 20) {grows : Bool}
    (hr : powByLogarithm limits grows a b = .ok r) (hr0 : r.value ≠ 0) :
    ∃ y : ℚ, Close limits.precision ((a.value : ℝ) ^ (b.value : ℝ)) y ∧
      r.value = nearest limits.precision y := by
  have h := limits.manageable
  obtain ⟨hpos, hlimit⟩ := powPlaces_mem limits ha hsmall
  have hclose := close_power limits ha ha0 hb hsmall rfl rfl
  unfold powByLogarithm at hr
  dsimp only at hr
  generalize powPlaces limits.precision a b = places at hpos hlimit hclose hr
  generalize shiftTo (ln places a * b.coefficient) b.exponent = product at hclose hr
  split at hr
  · next hrange =>
    have hm := h.maxExponent_le
    unfold largestMaxExponent at hm
    rw [Register.wrap_eq (by omega) (by omega)] at hr
    have hrounds := (roomy_mantissa limits hpos hlimit hrange).roundsOnce
      (p := limits.precision) (m := limits.maxExponent) rfl
    exact ⟨_, hclose, hrounds.value_eq h hr hr0⟩
  · exact absurd (eq_zero_of_powOutOfRange hr) hr0

/-- The power of one is one, and of every other base a result other than zero is the rounding of a
number close to the power. -/
private theorem eq_one_or_exists_close (limits : Limits) (ha : a.Moderate) (ha0 : 0 < a.value)
    (hb : b.Moderate) (hr : powFractional limits a b = .ok r) (hr0 : r.value ≠ 0) :
    (a.value = 1 ∧ r.value = 1) ∨ ∃ y : ℚ,
      Close limits.precision ((a.value : ℝ) ^ (b.value : ℝ)) y ∧
        r.value = nearest limits.precision y := by
  unfold powFractional at hr
  rw [ha.compare_eq moderate_one, value_one] at hr
  split at hr
  · next hone =>
    cases hr
    exact Or.inl ⟨compare_eq_iff_eq.1 hone, value_one⟩
  · dsimp only at hr
    split at hr
    · exact absurd (eq_zero_of_powOutOfRange hr) hr0
    · next hsmall =>
      exact Or.inr (exists_close_of_powByLogarithm limits ha ha0 hb (not_lt.1 hsmall) hr hr0)

theorem pow_eq_powFractional (limits : Limits) (hb : b.Moderate) (ha0 : 0 < a.value)
    (hfraction : ¬∃ n : ℤ, b.value = n) : pow limits a b = powFractional limits a b := by
  have hacoefficient : 0 < a.coefficient := value_pos_iff.1 ha0
  have hb0 : b.coefficient ≠ 0 := by
    intro hzero
    exact hfraction ⟨0, by rw [value_eq_zero_iff.2 hzero, Int.cast_zero]⟩
  unfold pow
  rw [if_neg (by simpa using hb0), if_neg (by simpa using hacoefficient.ne'),
    if_neg (mt (isInteger_iff hb).1 hfraction), if_neg (by simpa using hacoefficient.le)]

/-- A power of a positive number with a fractional exponent is less than one unit in the last place
away from the real power, and it is the real power where that has no more digits than are kept. -/
theorem pow_fractional_accurate (limits : Limits) (ha : a.Moderate) (hb : b.Moderate)
    (ha0 : 0 < a.value) (hfraction : ¬∃ n : ℤ, b.value = n) (hr : pow limits a b = .ok r)
    (hr0 : r.value ≠ 0) :
    |(r.value : ℝ) - (a.value : ℝ) ^ (b.value : ℝ)| <
        10 ^ (r.adjustedExponent - limits.precision + 1) ∧
      ∀ q : ℚ, Representable limits.precision q → (a.value : ℝ) ^ (b.value : ℝ) = q →
        r.value = q := by
  have h := limits.manageable
  have hmoderate := (normal_pow limits ha hb hr).moderate h
  rw [pow_eq_powFractional limits hb ha0 hfraction] at hr
  obtain ⟨hone, hvalue⟩ | ⟨y, hclose, hvalue⟩ := eq_one_or_exists_close limits ha ha0 hb hr hr0
  · rw [hone, hvalue, Rat.cast_one, Real.one_rpow, sub_self, abs_zero]
    exact ⟨by positivity, fun q _ hq => by exact_mod_cast hq⟩
  · have hpower : (a.value : ℝ) ^ (b.value : ℝ) ≠ 0 :=
      (Real.rpow_pos_of_pos (by exact_mod_cast ha0) _).ne'
    exact hclose.decimal_accurate h.precision_pos hpower hmoderate.roomy hvalue

/-- The square root of four, to one digit. -/
theorem square_root_of_four :
    (⟨4, 0⟩ : Decimal).Moderate ∧ (⟨5, -1⟩ : Decimal).Moderate ∧ 0 < (⟨4, 0⟩ : Decimal).value ∧
      (¬∃ n : ℤ, (⟨5, -1⟩ : Decimal).value = n) ∧ pow oneDigit ⟨4, 0⟩ ⟨5, -1⟩ = .ok ⟨2, 0⟩ ∧
      (⟨2, 0⟩ : Decimal).value ≠ 0 ∧ Representable oneDigit.precision 2 ∧
      (((⟨4, 0⟩ : Decimal).value : ℚ) : ℝ) ^ (((⟨5, -1⟩ : Decimal).value : ℚ) : ℝ) = (2 : ℚ) ∧
      (⟨2, 0⟩ : Decimal).value = 2 := by
  have hbase : (⟨4, 0⟩ : Decimal).Moderate := ⟨by decide, by decide, by decide⟩
  have hexponent : (⟨5, -1⟩ : Decimal).Moderate := ⟨by decide, by decide, by decide⟩
  have hpositive : 0 < (⟨4, 0⟩ : Decimal).value := value_pos_iff.2 (by decide)
  have hfraction : ¬∃ n : ℤ, (⟨5, -1⟩ : Decimal).value = n := by
    rw [← isInteger_iff hexponent]
    decide
  have hpower : pow oneDigit ⟨4, 0⟩ ⟨5, -1⟩ = .ok ⟨2, 0⟩ := by decide +kernel
  have hresult : (⟨2, 0⟩ : Decimal).value ≠ 0 := by simp
  have htwo : Representable oneDigit.precision 2 := ⟨2, 0, by decide, by norm_num⟩
  have hroot : (((⟨4, 0⟩ : Decimal).value : ℚ) : ℝ) ^ (((⟨5, -1⟩ : Decimal).value : ℚ) : ℝ) =
      (2 : ℚ) := by
    have hhalf : (((⟨5, -1⟩ : Decimal).value : ℚ) : ℝ) = 1 / 2 := by norm_num [value]
    have hfour : (((⟨4, 0⟩ : Decimal).value : ℚ) : ℝ) = 2 ^ 2 := by norm_num [value]
    rw [hhalf, hfour, ← Real.sqrt_eq_rpow, Real.sqrt_sq (by norm_num)]
    norm_num
  exact ⟨hbase, hexponent, hpositive, hfraction, hpower, hresult, htwo, hroot,
    (pow_fractional_accurate oneDigit hbase hexponent hpositive hfraction hpower hresult).2 2 htwo
      hroot⟩

end Decimal

end Reckon
