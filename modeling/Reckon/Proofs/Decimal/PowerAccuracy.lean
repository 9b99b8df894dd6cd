import Reckon.Decimal.Power
import Reckon.Proofs.Decimal.Drift

/-!
# Powers with whole exponents

With the digits that a power is worked out with, all roundings of repeated squaring together move it
by less than a sixth of itself in the digit after the last that is kept (`drift_le`), and after the
reciprocal of a negative exponent it is still `Close`.  Hence a power is less than one unit in the
last place away from the exact one, and is the exact one where that can be held
(`pow_integral_accurate`).

The range is checked at every product, with all the digits carried.  So a power that gives no
result, or zero, need not lie outside the range itself, but it is not far from lying there
(`pow_integral_range`).  With a negative exponent it may lie a whole place inside: the reciprocal of
a number that is too small to be held is reported as too large, although the largest number that can
be held is almost ten times the reciprocal of the smallest (`reciprocal_lost`).
-/

namespace Reckon

variable {p : ℕ} {m : ℤ} {x y c : ℚ}

/-! ## Numbers close to the ends of the range -/

/-- What is rounded to a number above the range is itself not much below its end. -/
theorem le_abs_of_lt_log_nearest (hm : 0 < m) (h : m < Int.log 10 |nearest p y|) :
    10 ^ (m + 1) * (1 - 1 / (2 * 10 ^ p)) ≤ |y| := by
  have hten := ten_zpow_pos (m + 1)
  have hpos : (0 : ℚ) < 10 ^ p := by positivity
  have hne : nearest p y ≠ 0 := by
    intro hzero
    rw [hzero, abs_zero, Int.log_zero_right] at h
    omega
  rcases lt_or_ge m (Int.log 10 |y|) with hhigh | hlow
  · have hy : y ≠ 0 := by
      rintro rfl
      exact hne (nearest_zero p)
    have hlarge := (ten_zpow_le_iff.2 hhigh).trans (zpow_log_abs_le hy)
    have hshare : (0 : ℚ) < 1 / (2 * 10 ^ p) := by positivity
    nlinarith
  · have hrounded := (ten_zpow_le_iff.2 h).trans (zpow_log_abs_le hne)
    have hmoved := two_mul_abs_sub_nearest_le p y
    have hunit : (10 : ℚ) ^ (Int.log 10 |y| + 1 - p) ≤ 10 ^ (m + 1) * (1 / 10 ^ p) := by
      rw [mul_one_div, le_div_iff₀ hpos, ten_zpow_sub_mul]
      exact ten_zpow_le_iff.2 (by omega)
    have hdistance := abs_sub_abs_le_abs_sub (nearest p y) y
    rw [abs_sub_comm] at hdistance
    have hhalf : (1 : ℚ) / (2 * 10 ^ p) = 1 / 10 ^ p / 2 := by field_simp
    rw [hhalf]
    linarith

/-- What is rounded to a number below the range lies below it. -/
theorem abs_lt_of_log_nearest_lt (hp : 0 < p) (h : Int.log 10 |nearest p y| < m) :
    |y| < 10 ^ m := by
  rcases eq_or_ne y 0 with rfl | hy
  · rw [abs_zero]
    exact ten_zpow_pos m
  · have hleading := le_log (zpow_log_le_abs_nearest hp hy)
    exact (abs_lt_zpow_log y).trans_le (ten_zpow_le_iff.2 (by omega))

namespace Close

variable {x : ℝ}

/-- The distance as a share of the number. -/
private theorem distance_le (h : Close p x y) : 5 * |(y : ℝ) - x| ≤ |x| * (1 / 10 ^ p) := by
  rw [mul_one_div, le_div_iff₀ (by positivity)]
  linarith [close_iff.1 h]

theorem lt_abs_of_le_abs {c : ℝ} (h : Close p x y) (hc : 0 < c)
    (hy : c * (1 - 1 / (2 * 10 ^ p)) ≤ |(y : ℝ)|) : c * (1 - 1 / 10 ^ p) < |x| := by
  have hdistance := abs_sub_abs_le_abs_sub (y : ℝ) x
  have hshare := h.distance_le
  have hhalf : (1 : ℝ) / (2 * 10 ^ p) = 1 / 10 ^ p / 2 := by field_simp
  rw [hhalf] at hy
  have hpos : (0 : ℝ) < 1 / 10 ^ p := by positivity
  generalize (1 : ℝ) / 10 ^ p = e at *
  by_contra hsmall
  have hscaled := mul_le_mul_of_nonneg_right (not_lt.1 hsmall) (by linarith : 0 ≤ 1 + e / 5)
  have hfirst : 0 < c * e := mul_pos hc hpos
  have hsecond : 0 < c * e * e := mul_pos hfirst hpos
  linarith

theorem abs_lt_of_abs_lt {c : ℝ} (h : Close p x y) (hy : |(y : ℝ)| < c) :
    |x| < c * (1 + 1 / 10 ^ p) := by
  have hdistance := abs_sub_abs_le_abs_sub x y
  rw [abs_sub_comm] at hdistance
  have hshare := h.distance_le
  have hnonneg := (abs_nonneg (y : ℝ)).trans_lt hy
  have hpos : (0 : ℝ) < 1 / 10 ^ p := by positivity
  have hone : (1 : ℝ) / 10 ^ p ≤ 1 := (div_le_one (by positivity)).2 (one_le_pow₀ (by norm_num))
  generalize (1 : ℝ) / 10 ^ p = e at *
  by_contra hlarge
  have hscaled := mul_le_mul_of_nonneg_right (not_lt.1 hlarge) (by linarith : 0 ≤ 1 - e / 5)
  have hfirst : 0 < c * e := mul_pos hnonneg hpos
  have hsecond : c * e * e ≤ c * e := mul_le_of_le_one_right hfirst.le hone
  linarith

theorem lt_abs {q : ℚ} (h : Close p (q : ℝ) y) (hc : 0 < c)
    (hy : c * (1 - 1 / (2 * 10 ^ p)) ≤ |y|) : c * (1 - 1 / 10 ^ p) < |q| := by
  have hreal := (Rat.cast_le (K := ℝ)).2 hy
  push_cast at hreal
  have hlarge := h.lt_abs_of_le_abs (by exact_mod_cast hc) hreal
  refine (Rat.cast_lt (K := ℝ)).1 ?_
  push_cast
  exact hlarge

theorem abs_lt {q : ℚ} (h : Close p (q : ℝ) y) (hy : |y| < c) : |q| < c * (1 + 1 / 10 ^ p) := by
  have hreal := (Rat.cast_lt (K := ℝ)).2 hy
  push_cast at hreal
  have hsmall := h.abs_lt_of_abs_lt hreal
  refine (Rat.cast_lt (K := ℝ)).1 ?_
  push_cast
  exact hsmall

end Close

/-! ## The error of the digits carried -/

namespace Decimal

variable {a b r : Decimal}

/-- The digits carried are enough for all roundings together. -/
private theorem drift_le (hp : 0 < p) (n : ℤ) :
    ((1 + 5 / 10 ^ powDigits p n : ℚ) ^ (3 * n.natAbs) - 1) * (6 * 10 ^ p) ≤ 1 := by
  have hten : (10 : ℚ) ≤ 10 ^ p := le_self_pow₀ (by norm_num) hp.ne'
  have hcount : (n.natAbs : ℚ) ≤ 10 ^ digitCount n.natAbs := by
    exact_mod_cast (lt_pow_digitCount n.natAbs).le
  have hu : (5 : ℚ) / 10 ^ powDigits p n * (10 ^ p * 10 ^ digitCount n.natAbs * 100) = 5 := by
    rw [powDigits, pow_add, pow_add]
    field_simp
    norm_num
  have hupos : (0 : ℚ) < 5 / 10 ^ powDigits p n := by positivity
  generalize (5 : ℚ) / 10 ^ powDigits p n = u at *
  -- the sum of the errors, in the digit after the last
  have hsum : 3 * n.natAbs * u * 10 ^ p ≤ 15 / 100 := by
    have := mul_le_mul_of_nonneg_left hcount (by positivity : 0 ≤ u * 10 ^ p * 3)
    linarith
  have hsmall : 3 * n.natAbs * u ≤ 15 / 1000 := by
    have hnonneg : 0 ≤ 3 * (n.natAbs : ℚ) * u := by positivity
    nlinarith
  have hu1 : u ≤ 1 := by
    have hone : (1 : ℚ) ≤ 10 ^ digitCount n.natAbs := one_le_pow₀ (by norm_num)
    have hlarge : 5 ≤ (10 : ℚ) ^ p * 10 ^ digitCount n.natAbs * 100 := by nlinarith
    by_contra hgt
    nlinarith
  have hpow := one_add_pow_mul_le hupos.le hu1 (3 * n.natAbs)
  push_cast at hpow
  have hpos : 0 < (1 + u) ^ (3 * n.natAbs) := by positivity
  have hbound : (1 + u) ^ (3 * n.natAbs) ≤ 11 / 10 := by nlinarith
  calc ((1 + u) ^ (3 * n.natAbs) - 1) * (6 * 10 ^ p)
      ≤ (1 + u) ^ (3 * n.natAbs) * (3 * n.natAbs * u) * (6 * 10 ^ p) := by
        refine mul_le_mul_of_nonneg_right ?_ (by positivity)
        linarith
    _ = (1 + u) ^ (3 * n.natAbs) * 6 * (3 * n.natAbs * u * 10 ^ p) := by ring
    _ ≤ (1 + u) ^ (3 * n.natAbs) * 6 * (15 / 100) :=
        mul_le_mul_of_nonneg_left hsum (by positivity)
    _ ≤ 1 := by linarith

private theorem six_mul_le (hp : 0 < p) {n : ℤ} {k : ℕ} (hk : k ≤ 3 * n.natAbs)
    (h : Drifted (5 / 10 ^ powDigits p n) k x y) : 6 * 10 ^ p * |y - x| ≤ |x| := by
  have hdrift := h.mono (by positivity) hk
  unfold Drifted at hdrift
  have hscaled := mul_le_mul_of_nonneg_left hdrift (by positivity : (0 : ℚ) ≤ 6 * 10 ^ p)
  have hshare := mul_le_mul_of_nonneg_right (drift_le hp n) (abs_nonneg x)
  linarith

private theorem close_of_six_mul_le (h : 6 * 10 ^ p * |y - x| ≤ |x|) : Close p (x : ℝ) y := by
  have hnonneg : 0 ≤ (10 : ℚ) ^ p * |y - x| := by positivity
  exact Close.iff_rat.2 (by linarith)

/-- The reciprocal is a little less near, but near enough. -/
private theorem close_inv_of_six_mul_le (hx : x ≠ 0) (h : 6 * 10 ^ p * |y - x| ≤ |x|) :
    Close p ((x⁻¹ : ℚ) : ℝ) y⁻¹ := by
  have hy : y ≠ 0 := (close_of_six_mul_le h).ne_zero (by exact_mod_cast hx)
  have hten : (1 : ℚ) ≤ 10 ^ p := one_le_pow₀ (by norm_num)
  have hxpos := abs_pos.2 hx
  have hypos := abs_pos.2 hy
  have hdistance := abs_sub_abs_le_abs_sub x y
  rw [abs_sub_comm] at hdistance
  have hdifference : |y⁻¹ - x⁻¹| = |y - x| / (|x| * |y|) := by
    rw [inv_sub_inv hy hx, abs_div, abs_mul, abs_sub_comm, mul_comm |y|]
  refine Close.iff_rat.2 ?_
  rw [hdifference, abs_inv, ← mul_div_assoc, div_le_iff₀ (by positivity),
    inv_mul_cancel_left₀ hxpos.ne']
  nlinarith [abs_nonneg (y - x)]

/-! ## The outcomes of a power -/

/-- When a number close to `x` has no result, `x` is not far from too large. -/
theorem RoundsOnce.lt_abs_of_close {x : ℝ} {result : Except ArithmeticFault Decimal}
    (h : Manageable p m) (hclose : Close p x y) (hresult : RoundsOnce p m y result)
    {fault : ArithmeticFault} (hr : result = .error fault) :
    fault = .overflow ∧ (10 : ℝ) ^ (m + 1) * (1 - 1 / 10 ^ p) < |x| := by
  obtain rfl := hresult.fault_eq h hr
  have hhigh := (hresult.eq_overflow_iff h).1 hr
  have hreal := (Rat.cast_le (K := ℝ)).2 (le_abs_of_lt_log_nearest h.maxExponent_pos hhigh)
  push_cast at hreal
  exact ⟨rfl, hclose.lt_abs_of_le_abs (by positivity) hreal⟩

/-- When it is zero, `x` is not far from too small. -/
theorem RoundsOnce.abs_lt_of_close {x : ℝ} {result : Except ArithmeticFault Decimal}
    (h : Manageable p m) (hclose : Close p x y) (hx : x ≠ 0) (hresult : RoundsOnce p m y result)
    (hr : result = .ok r) (hr0 : r.value = 0) : |x| < (10 : ℝ) ^ (-m) * (1 + 1 / 10 ^ p) := by
  have hlow := (hresult.isZero_iff h).1 ⟨r, hr, by simpa using hr0⟩
  have hreal := (Rat.cast_lt (K := ℝ)).2
    (abs_lt_of_log_nearest_lt h.precision_pos (hlow.resolve_left (hclose.ne_zero hx)))
  push_cast at hreal
  exact hclose.abs_lt_of_abs_lt hreal

/-- What is returned for the number `x`: a number close to it, rounded; or nothing, when it is not
far below `10 ^ reach`; or zero, when it is not far above the end of the range. -/
inductive NearlyRounded (p : ℕ) (m reach : ℤ) (x : ℚ) : Except ArithmeticFault Decimal → Prop
  | rounded {y : ℚ} {result : Except ArithmeticFault Decimal} (hy : Close p (x : ℝ) y)
      (hresult : RoundsOnce p m y result) : NearlyRounded p m reach x result
  | tooLarge (hlarge : 10 ^ reach * (1 - 1 / 10 ^ p) < |x|) :
      NearlyRounded p m reach x (.error .overflow)
  | tooSmall {r : Decimal} (hr : r.value = 0) (hsmall : |x| < 10 ^ (-m) * (1 + 1 / 10 ^ p)) :
      NearlyRounded p m reach x (.ok r)

namespace NearlyRounded

variable {reach : ℤ} {result : Except ArithmeticFault Decimal}

/-- A result other than zero is as near as the number that was rounded allows. -/
theorem exists_close (h : Manageable p m) (hresult : NearlyRounded p m reach x result)
    (hr : result = .ok r) (hr0 : r.value ≠ 0) :
    ∃ y : ℚ, Close p (x : ℝ) y ∧ r.value = nearest p y := by
  cases hresult with
  | rounded hy hresult => exact ⟨_, hy, hresult.value_eq h hr hr0⟩
  | tooLarge hlarge => cases hr
  | tooSmall hzero hsmall =>
      cases hr
      exact absurd hzero hr0

/-- Without a result the number is not far from too large. -/
theorem lt_abs_of_error (h : Manageable p m) (hreach : reach ≤ m + 1)
    (hresult : NearlyRounded p m reach x result) {fault : ArithmeticFault}
    (hr : result = .error fault) : fault = .overflow ∧ 10 ^ reach * (1 - 1 / 10 ^ p) < |x| := by
  cases hresult with
  | rounded hy hresult =>
      obtain ⟨hfault, hlarge⟩ := hresult.lt_abs_of_close h hy hr
      have hone : (1 : ℚ) / 10 ^ p ≤ 1 :=
        (div_le_one (by positivity)).2 (one_le_pow₀ (by norm_num))
      have hrational : 10 ^ (m + 1) * (1 - 1 / 10 ^ p) < |x| :=
        (Rat.cast_lt (K := ℝ)).1 (by push_cast; exact hlarge)
      refine ⟨hfault, lt_of_le_of_lt ?_ hrational⟩
      exact mul_le_mul_of_nonneg_right (ten_zpow_le_iff.2 hreach) (by linarith)
  | tooLarge hlarge =>
      cases hr
      exact ⟨rfl, hlarge⟩
  | tooSmall hzero hsmall => cases hr

/-- With the result zero the number is not far from too small. -/
theorem abs_lt_of_eq_zero (h : Manageable p m) (hresult : NearlyRounded p m reach x result)
    (hx : x ≠ 0) (hr : result = .ok r) (hr0 : r.value = 0) :
    |x| < 10 ^ (-m) * (1 + 1 / 10 ^ p) := by
  cases hresult with
  | rounded hy hresult =>
      have hsmall := hresult.abs_lt_of_close h hy (by exact_mod_cast hx) hr hr0
      exact (Rat.cast_lt (K := ℝ)).1 (by push_cast; exact hsmall)
  | tooLarge hlarge => cases hr
  | tooSmall hzero hsmall => exact hsmall

end NearlyRounded

/-! ## Powers that are worked off -/

/-- Of the natural powers the range checks on the way miss the end by a few roundings only. -/
private theorem nearlyRounded_pow (limits : Limits) {n : ℤ} (hn : n.natAbs < 10 ^ 20)
    (hnonneg : 0 ≤ n) {x : ℚ} {k : ℕ} (hk : k ≤ 3 * n.natAbs)
    (hfound : Found (powDigits limits.precision n) limits.maxExponent k x
      (powBySquaring (powDigits limits.precision n) limits.maxExponent a n.natAbs)) :
    NearlyRounded limits.precision limits.maxExponent (limits.maxExponent + 1) x
      (powInt limits a n) := by
  have hp := limits.precision_pos
  have hwork := manageable_powDigits limits hn
  unfold powInt
  dsimp only
  rw [if_pos hnonneg]
  generalize powBySquaring (powDigits limits.precision n) limits.maxExponent a n.natAbs = powered
    at hfound
  cases hfound with
  | near hnormal hne hr =>
      exact .rounded (close_of_six_mul_le (six_mul_le hp hk hr))
        ((hnormal.moderate hwork).roomy.roundsOnce rfl)
  | tooLarge hy hlarge =>
      have hclose := close_of_six_mul_le (six_mul_le hp hk hy)
      refine .tooLarge (hclose.lt_abs (ten_zpow_pos _) (le_trans ?_ hlarge))
      exact mul_le_of_le_one_right (ten_zpow_pos _).le (sub_le_self _ (by positivity))
  | tooSmall hnormal hzero hy hsmall =>
      have hclose := close_of_six_mul_le (six_mul_le hp hk hy)
      have hround := (hnormal.moderate hwork).roomy.roundsOnce (p := limits.precision)
        (m := limits.maxExponent) rfl
      obtain ⟨r', hr', hzero'⟩ := (hround.isZero_iff limits.manageable).2 (Or.inl hzero)
      change NearlyRounded _ _ _ x (Decimal.round limits _)
      rw [Decimal.round, hr']
      exact .tooSmall (by simpa using hzero') (hclose.abs_lt hsmall)

/-- Of the reciprocals they miss the upper end by up to a whole place. -/
private theorem nearlyRounded_inv_pow (limits : Limits) {n : ℤ} (hn : n.natAbs < 10 ^ 20)
    (hneg : n < 0) {x : ℚ} (hx : x ≠ 0) {k : ℕ} (hk : k ≤ 3 * n.natAbs)
    (hfound : Found (powDigits limits.precision n) limits.maxExponent k x
      (powBySquaring (powDigits limits.precision n) limits.maxExponent a n.natAbs)) :
    NearlyRounded limits.precision limits.maxExponent limits.maxExponent x⁻¹
      (powInt limits a n) := by
  have hp := limits.precision_pos
  have hwork := manageable_powDigits limits hn
  have hten : (10 : ℚ) ≤ 10 ^ limits.precision := le_self_pow₀ (by norm_num) hp.ne'
  have hshare : (1 : ℚ) / 10 ^ limits.precision ≤ 1 / 10 :=
    one_div_le_one_div_of_le (by norm_num) hten
  have hpos : (0 : ℚ) < 1 / 10 ^ limits.precision := by positivity
  have hunit := ten_zpow_pos limits.maxExponent
  have hxpos := abs_pos.2 hx
  unfold powInt
  dsimp only
  rw [if_neg (not_le.2 hneg)]
  generalize powBySquaring (powDigits limits.precision n) limits.maxExponent a n.natAbs = powered
    at hfound
  cases hfound with
  | near hnormal hne hr =>
      have hcoefficient := mt value_eq_zero_iff.2 hne
      dsimp only
      rw [if_neg (by simpa using hcoefficient)]
      have hquotient := roundsOnce_div limits moderate_one (hnormal.moderate hwork) hcoefficient
      rw [value_one, one_div] at hquotient
      exact .rounded (close_inv_of_six_mul_le hx (six_mul_le hp hk hr)) hquotient
  | tooLarge hy hlarge =>
      have hclose := close_of_six_mul_le (six_mul_le hp hk hy)
      refine .tooSmall value_zero ?_
      have hbound := hclose.lt_abs (ten_zpow_pos (limits.maxExponent + 1)) (le_trans
        (mul_le_of_le_one_right (ten_zpow_pos _).le (sub_le_self _ (by positivity))) hlarge)
      rw [abs_inv, zpow_neg, inv_mul_eq_div, lt_div_iff₀ hunit, inv_mul_lt_iff₀ hxpos]
      rw [zpow_add_one₀ (by norm_num)] at hbound
      nlinarith
  | tooSmall hnormal hzero hy hsmall =>
      have hclose := close_of_six_mul_le (six_mul_le hp hk hy)
      dsimp only
      rw [if_pos (by simpa using hzero)]
      refine .tooLarge ?_
      have hbound := hclose.abs_lt hsmall
      rw [zpow_neg, inv_mul_eq_div, lt_div_iff₀ hunit] at hbound
      rw [abs_inv, ← one_div, lt_div_iff₀ hxpos]
      calc 10 ^ limits.maxExponent * (1 - 1 / 10 ^ limits.precision) * |x|
          = |x| * 10 ^ limits.maxExponent * (1 - 1 / 10 ^ limits.precision) := by ring
        _ < (1 + 1 / 10 ^ limits.precision) * (1 - 1 / 10 ^ limits.precision) :=
            mul_lt_mul_of_pos_right hbound (by linarith)
        _ ≤ 1 := by nlinarith

/-- The place up to which a power is found: one below the end of the range when the power is a
reciprocal. -/
def powReach (m n : ℤ) : ℤ := if n < 0 then m else m + 1

theorem nearlyRounded_powInt (limits : Limits) (ha : a.Moderate) (ha0 : a.value ≠ 0) {n : ℤ}
    (hn : n.natAbs < 10 ^ 20) :
    NearlyRounded limits.precision limits.maxExponent (powReach limits.maxExponent n)
      (a.value ^ n) (powInt limits a n) := by
  have hp := limits.precision_pos
  have hfound := found_powBySquaring (manageable_powDigits limits hn) ha ha0 n.natAbs (by
    have hdrift := drift_le hp n
    have hten : (1 : ℚ) ≤ 10 ^ limits.precision := one_le_pow₀ (by norm_num)
    by_contra hlarge
    nlinarith)
  unfold powReach
  split
  · next hneg =>
    have hpower : a.value ^ n = (a.value ^ n.natAbs)⁻¹ := by
      rw [← zpow_natCast, ← zpow_neg]
      congr 1
      omega
    rw [hpower]
    exact nearlyRounded_inv_pow limits hn hneg (pow_ne_zero _ ha0) (by omega) hfound
  · next hnonneg =>
    have hpower : a.value ^ n = a.value ^ n.natAbs := by
      rw [← zpow_natCast]
      congr 1
      omega
    rw [hpower]
    exact nearlyRounded_pow limits hn (not_lt.1 hnonneg) (by omega) hfound

/-! ## Accuracy and range -/

/-- A power with a whole exponent other than zero is worked off, unless the exponent is huge. -/
theorem pow_eq_of_integer (limits : Limits) (hb : b.Moderate) (ha0 : a.value ≠ 0) {n : ℤ}
    (hn0 : n ≠ 0) (hn : b.value = n) :
    pow limits a b = if n.natAbs < 10 ^ 20 then powInt limits a n else powHuge a b := by
  have hb0 : b.coefficient ≠ 0 := by
    rw [ne_eq, ← value_eq_zero_iff, hn]
    exact_mod_cast hn0
  unfold pow
  rw [if_neg (by simpa using hb0), if_neg (by simpa using ha0),
    if_pos ((isInteger_iff hb).2 ⟨n, hn⟩), powIntegral_eq limits hb hb0 hn]

/-- A power with a whole exponent is less than one unit in the last place away from the exact one,
and it is the exact one where that has no more digits than are kept. -/
theorem pow_integral_accurate (limits : Limits) (ha : a.Moderate) (hb : b.Moderate)
    (ha0 : a.value ≠ 0) {n : ℤ} (hn : b.value = n) (hr : pow limits a b = .ok r)
    (hr0 : r.value ≠ 0) :
    |r.value - a.value ^ n| < 10 ^ (r.adjustedExponent - limits.precision + 1) ∧
      (Representable limits.precision (a.value ^ n) → r.value = a.value ^ n) := by
  have h := limits.manageable
  have hexact : r.value = a.value ^ n → |r.value - a.value ^ n| <
      10 ^ (r.adjustedExponent - limits.precision + 1) ∧
        (Representable limits.precision (a.value ^ n) → r.value = a.value ^ n) := by
    intro heq
    rw [heq, sub_self, abs_zero]
    exact ⟨ten_zpow_pos _, fun _ => rfl⟩
  rcases eq_or_ne n 0 with rfl | hn0
  · have hb0 : b.coefficient = 0 := by simpa using hn
    unfold pow at hr
    rw [if_pos (by simpa using hb0), if_neg (by simpa using ha0)] at hr
    cases hr
    exact hexact (by rw [value_one, zpow_zero])
  rw [pow_eq_of_integer limits hb ha0 hn0 hn] at hr
  split at hr
  · next hsmall =>
    have hpower := zpow_ne_zero n ha0
    have hmoderate := (normal_powInt limits ha (manageable_powDigits limits hsmall) hr).moderate h
    obtain ⟨y, hclose, hvalue⟩ := (nearlyRounded_powInt limits ha ha0 hsmall).exists_close h hr hr0
    obtain ⟨hdistance, hexact⟩ := hclose.decimal_accurate h.precision_pos (by exact_mod_cast hpower)
      hmoderate.roomy hvalue
    refine ⟨(Rat.cast_lt (K := ℝ)).1 (by simpa using hdistance), fun hrepresentable => ?_⟩
    exact hexact _ hrepresentable rfl
  · obtain ⟨r', hr', hvalue⟩ := powHuge_of_abs_eq_one ha hb hn (abs_eq_one_of_powHuge ha hr hr0)
    cases hr.symm.trans hr'
    exact hexact hvalue

/-- The third power of one third, to one digit. -/
theorem cube_of_three_reciprocal :
    (⟨3, 0⟩ : Decimal).Moderate ∧ (⟨-3, 0⟩ : Decimal).Moderate ∧ (⟨3, 0⟩ : Decimal).value ≠ 0 ∧
      (⟨-3, 0⟩ : Decimal).value = (-3 : ℤ) ∧ pow oneDigit ⟨3, 0⟩ ⟨-3, 0⟩ = .ok ⟨4, -2⟩ ∧
      (⟨4, -2⟩ : Decimal).value ≠ 0 ∧
      |(⟨4, -2⟩ : Decimal).value - (⟨3, 0⟩ : Decimal).value ^ (-3 : ℤ)| < 10 ^ (-2 : ℤ) := by
  have hbase : (⟨3, 0⟩ : Decimal).Moderate := ⟨by decide, by decide, by decide⟩
  have hexponent : (⟨-3, 0⟩ : Decimal).Moderate := ⟨by decide, by decide, by decide⟩
  have hne : (⟨3, 0⟩ : Decimal).value ≠ 0 := by simp
  have hwhole : (⟨-3, 0⟩ : Decimal).value = (-3 : ℤ) := by norm_num [value]
  have hpower : pow oneDigit ⟨3, 0⟩ ⟨-3, 0⟩ = .ok ⟨4, -2⟩ := by decide +kernel
  have hresult : (⟨4, -2⟩ : Decimal).value ≠ 0 := by simp
  exact ⟨hbase, hexponent, hne, hwhole, hpower, hresult,
    (pow_integral_accurate oneDigit hbase hexponent hne hwhole hpower hresult).1⟩

/-- A power with a whole exponent that is worked off fails only as an overflow, and only when it is
not far from too large; it is zero only when it is not far from too small.  For a reciprocal "not
far" is one place. -/
theorem pow_integral_range (limits : Limits) (ha : a.Moderate) (hb : b.Moderate)
    (ha0 : a.value ≠ 0) {n : ℤ} (hn : b.value = n) (hn0 : n ≠ 0) (hsmall : n.natAbs < 10 ^ 20) :
    (∀ fault, pow limits a b = .error fault → fault = .overflow ∧
        10 ^ powReach limits.maxExponent n * (1 - 1 / 10 ^ limits.precision) < |a.value ^ n|) ∧
      ∀ r, pow limits a b = .ok r → r.value = 0 →
        |a.value ^ n| < 10 ^ (-limits.maxExponent) * (1 + 1 / 10 ^ limits.precision) := by
  have h := limits.manageable
  have hresult := nearlyRounded_powInt limits ha ha0 hsmall
  have hreach : powReach limits.maxExponent n ≤ limits.maxExponent + 1 := by
    unfold powReach
    split <;> omega
  rw [pow_eq_of_integer limits hb ha0 hn0 hn, if_pos hsmall]
  exact ⟨fun fault hr => hresult.lt_abs_of_error h hreach hr,
    fun r hr hr0 => hresult.abs_lt_of_eq_zero h (zpow_ne_zero n ha0) hr hr0⟩

/-- The default limits, with a range of one place on either side of the units. -/
def narrowRange : Limits :=
  { Limits.default with
    maxExponent := 1, maxExponent_pos := by decide, maxExponent_le := by decide }

/-- The reciprocal of two hundredths has no result in the narrow range, and is larger than the end
of the range nearly divided by ten. -/
theorem reciprocal_of_two_hundredths :
    (⟨2, -2⟩ : Decimal).Moderate ∧ (⟨-1, 0⟩ : Decimal).Moderate ∧ (⟨2, -2⟩ : Decimal).value ≠ 0 ∧
      (⟨-1, 0⟩ : Decimal).value = (-1 : ℤ) ∧
      pow narrowRange ⟨2, -2⟩ ⟨-1, 0⟩ = .error .overflow ∧
      (10 : ℚ) ^ (1 : ℤ) * (1 - 1 / 10 ^ 28) < |(⟨2, -2⟩ : Decimal).value ^ (-1 : ℤ)| := by
  have hbase : (⟨2, -2⟩ : Decimal).Moderate := ⟨by decide, by decide, by decide⟩
  have hexponent : (⟨-1, 0⟩ : Decimal).Moderate := ⟨by decide, by decide, by decide⟩
  have hne : (⟨2, -2⟩ : Decimal).value ≠ 0 := by simp
  have hwhole : (⟨-1, 0⟩ : Decimal).value = (-1 : ℤ) := by norm_num [value]
  have hpower : pow narrowRange ⟨2, -2⟩ ⟨-1, 0⟩ = .error .overflow := by decide +kernel
  exact ⟨hbase, hexponent, hne, hwhole, hpower, ((pow_integral_range narrowRange hbase hexponent hne
    hwhole (by decide) (by decide)).1 _ hpower).2⟩

/-- That reciprocal is fifty, which the range holds, and division finds it. -/
theorem reciprocal_lost :
    pow narrowRange ⟨2, -2⟩ ⟨-1, 0⟩ = .error .overflow ∧
      ¬narrowRange.maxExponent <
        Int.log 10 |nearest narrowRange.precision ((⟨2, -2⟩ : Decimal).value ^ (-1 : ℤ))| ∧
      div narrowRange .one ⟨2, -2⟩ = .ok ⟨5, 1⟩ := by
  have hpower : (⟨2, -2⟩ : Decimal).value ^ (-1 : ℤ) = 50 := by norm_num [value]
  have hfifty : nearest narrowRange.precision 50 = 50 :=
    nearest_of_representable ⟨50, 0, by decide, by norm_num⟩
  have hlog : Int.log 10 |(50 : ℚ)| = 1 := log_eq (by norm_num) (by norm_num)
  refine ⟨by decide +kernel, ?_, by decide +kernel⟩
  rw [hpower, hfifty, hlog]
  decide

end Decimal

end Reckon
