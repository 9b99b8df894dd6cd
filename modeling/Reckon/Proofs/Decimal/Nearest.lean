import Mathlib.Data.Real.Basic
import Reckon.Proofs.Decimal.Rounded

/-!
# How far rounding moves a number

Rounded to `p` digits, a number moves by at most half a unit of its last place
(`two_mul_abs_sub_nearest_le`), and not below the place of its leading digit
(`zpow_log_le_abs_nearest`).

An operation that does not know its exact result `x` may round a number `y` near it.  How near is
near enough is said by `Close p x y`: the two are apart by at most a fifth of `x`, moved `p` places
down.  Then rounding `y` gives a number that is less than one unit in the last place away from
`x` (`Close.abs_nearest_sub_lt`), and `x` itself where `p` digits can hold it
(`Close.nearest_eq`).

The distance is measured relative to `x`, while the last place is that of `y`; the two leading
digits need not stand in the same place, and near a power of ten they do not.  So the bound on the
distance is first carried over to the last place of `y` (`Close.distance_lt`).
-/

namespace Reckon

variable {p : ℕ} {x y : ℚ}

/-! ## The distance to the rounded number -/

/-- The unit of the last of `p` places, counted from the leading one. -/
theorem ten_zpow_sub_mul (n : ℤ) (p : ℕ) : (10 : ℚ) ^ (n - p) * 10 ^ p = 10 ^ n := by
  rw [← zpow_natCast, ← ten_zpow_add, sub_add_cancel]

theorem two_mul_abs_sub_nearest_le (p : ℕ) (x : ℚ) :
    2 * |x - nearest p x| ≤ 10 ^ (Int.log 10 |x| + 1 - p) := by
  have hunit := ten_zpow_pos (Int.log 10 |x| + 1 - p)
  have hnear := two_mul_abs_sub_nearestEven_le (x / 10 ^ (Int.log 10 |x| + 1 - p))
  have hscaled : x - nearest p x = (x / 10 ^ (Int.log 10 |x| + 1 - p) -
      nearestEven (x / 10 ^ (Int.log 10 |x| + 1 - p))) * 10 ^ (Int.log 10 |x| + 1 - p) := by
    unfold nearest
    rw [sub_mul, div_mul_cancel₀ _ hunit.ne']
  rw [hscaled, abs_mul, abs_of_pos hunit, ← mul_assoc]
  exact mul_le_of_le_one_left hunit.le hnear

/-- Relative to the number, rounding moves it by at most `5 * 10 ^ (-p)`. -/
theorem abs_sub_nearest_mul_le (p : ℕ) (x : ℚ) : |x - nearest p x| * 10 ^ p ≤ 5 * |x| := by
  rcases eq_or_ne x 0 with rfl | hx
  · simp [nearest_zero]
  · have hscaled := mul_le_mul_of_nonneg_right (two_mul_abs_sub_nearest_le p x)
      (by positivity : (0 : ℚ) ≤ 10 ^ p)
    rw [ten_zpow_sub_mul, zpow_add_one₀ (by norm_num)] at hscaled
    linarith [zpow_log_abs_le hx]

theorem nearest_neg (p : ℕ) (x : ℚ) : nearest p (-x) = -nearest p x := by
  unfold nearest
  rw [abs_neg, neg_div, nearestEven_neg, Int.cast_neg, neg_mul]

/-- The magnitude is rounded by itself. -/
theorem abs_nearest (p : ℕ) (x : ℚ) : |nearest p x| = nearest p |x| := by
  have hnonneg : ∀ {y : ℚ}, 0 ≤ y → 0 ≤ nearest p y := by
    intro y hy
    have hrounded := le_nearestEven (x := y / 10 ^ (Int.log 10 |y| + 1 - p)) (k := 0)
      (by rw [Int.cast_zero]; exact div_nonneg hy (ten_zpow_pos _).le)
    exact mul_nonneg (by exact_mod_cast hrounded) (ten_zpow_pos _).le
  rcases le_total 0 x with hx | hx
  · rw [abs_of_nonneg hx, abs_of_nonneg (hnonneg hx)]
  · rw [abs_of_nonpos hx, ← abs_of_nonneg (hnonneg (neg_nonneg.2 hx)), nearest_neg, abs_neg]

/-- Rounding does not take a number below the place of its leading digit. -/
theorem zpow_log_le_abs_nearest (hp : 0 < p) (hx : x ≠ 0) :
    (10 : ℚ) ^ Int.log 10 |x| ≤ |nearest p x| := by
  have hunit := ten_zpow_pos (Int.log 10 |x| + 1 - p)
  have hplace : (10 : ℚ) ^ Int.log 10 |x| =
      ((10 ^ (p - 1) : ℤ) : ℚ) * 10 ^ (Int.log 10 |x| + 1 - p) := by
    have hsplit := ten_zpow_sub_mul (Int.log 10 |x|) (p - 1)
    rw [Nat.cast_sub hp, Nat.cast_one, sub_sub_eq_add_sub] at hsplit
    rw [← hsplit, mul_comm]
    push_cast
    rfl
  have hrounded := le_nearestEven ((le_div_iff₀ hunit).2 (hplace ▸ zpow_log_abs_le hx))
  rw [abs_nearest, nearest, abs_abs, hplace]
  exact mul_le_mul_of_nonneg_right (by exact_mod_cast hrounded) hunit.le

theorem nearest_ne_zero (hp : 0 < p) (hx : x ≠ 0) : nearest p x ≠ 0 :=
  abs_pos.1 ((ten_zpow_pos _).trans_le (zpow_log_le_abs_nearest hp hx))

/-! ## Numbers that are close enough -/

/-- The number `y` differs from `x` by at most a fifth of `x`, moved `p` places down. -/
def Close (p : ℕ) (x : ℝ) (y : ℚ) : Prop := (5 * 10 ^ p : ℕ) * |(y : ℝ) - x| ≤ |x|

theorem close_iff {x : ℝ} : Close p x y ↔ 5 * 10 ^ p * |(y : ℝ) - x| ≤ |x| := by
  unfold Close
  push_cast
  rfl

namespace Close

variable {x : ℝ}

theorem ne_zero (h : Close p x y) (hx : x ≠ 0) : y ≠ 0 := by
  rintro rfl
  have hten : (1 : ℝ) ≤ 10 ^ p := one_le_pow₀ (by norm_num)
  have hpos := abs_pos.2 hx
  rw [close_iff, Rat.cast_zero, zero_sub, abs_neg] at h
  nlinarith

/-- The distance in units of the last place of `y`. -/
theorem distance_lt (hp : 0 < p) (h : Close p x y) :
    4 * |(y : ℝ) - x| < 10 ^ (Int.log 10 |y| + 1 - p) := by
  have hten : (10 : ℝ) ≤ 10 ^ p := le_self_pow₀ (by norm_num) hp.ne'
  have hsize : |x| ≤ |(y : ℝ)| + |(y : ℝ) - x| := by
    have := abs_sub_abs_le_abs_sub x y
    rw [abs_sub_comm x y] at this
    linarith
  have hplace : |(y : ℝ)| < 10 ^ (Int.log 10 |y| + 1 - p) * 10 ^ p := by
    have hleading := abs_lt_zpow_log y
    rw [← ten_zpow_sub_mul _ p] at hleading
    simpa using (Rat.cast_lt (K := ℝ)).2 hleading
  -- the distance is at most a fiftieth of `x`, so it hardly matters that `x` is not `y`
  have hdistance : (5 * 10 ^ p - 1) * |(y : ℝ) - x| < 10 ^ (Int.log 10 |y| + 1 - p) * 10 ^ p := by
    rw [close_iff] at h
    linarith
  have hnonneg := abs_nonneg ((y : ℝ) - x)
  by_contra hlarge
  have hscaled := mul_le_mul_of_nonneg_right (not_lt.1 hlarge) (by positivity : (0 : ℝ) ≤ 10 ^ p)
  nlinarith

/-- What is rounded is less than one unit in the last place of the result away. -/
theorem abs_nearest_sub_lt (hp : 0 < p) (h : Close p x y) (hx : x ≠ 0) :
    |((nearest p y : ℚ) : ℝ) - x| < 10 ^ (Int.log 10 |nearest p y| + 1 - p) := by
  have hdistance := h.distance_lt hp
  have hrounding : 2 * |(y : ℝ) - (nearest p y : ℚ)| ≤ 10 ^ (Int.log 10 |y| + 1 - p) := by
    simpa using (Rat.cast_le (K := ℝ)).2 (two_mul_abs_sub_nearest_le p y)
  have hleading : Int.log 10 |y| ≤ Int.log 10 |nearest p y| :=
    le_log (zpow_log_le_abs_nearest hp (h.ne_zero hx))
  calc |((nearest p y : ℚ) : ℝ) - x|
      ≤ |((nearest p y : ℚ) : ℝ) - y| + |(y : ℝ) - x| := abs_sub_le _ _ _
    _ < 10 ^ (Int.log 10 |y| + 1 - p) := by
        rw [abs_sub_comm ((nearest p y : ℚ) : ℝ)]
        linarith [abs_nonneg ((y : ℝ) - x), ten_zpow_pos (Int.log 10 |y| + 1 - p)]
    _ ≤ 10 ^ (Int.log 10 |nearest p y| + 1 - p) := zpow_le_zpow_right₀ (by norm_num) (by omega)

/-- The distance from a number that is known exactly, without the reals. -/
theorem iff_rat {q : ℚ} : Close p (q : ℝ) y ↔ 5 * 10 ^ p * |y - q| ≤ |q| := by
  rw [close_iff]
  exact_mod_cast Iff.rfl

/-- Between a number that `p` digits can hold and the next place there is at least one unit. -/
private theorem abs_add_unit_le {q : ℚ} {n : ℤ} (hrepresentable : Representable p q)
    (hlow : (10 : ℚ) ^ n ≤ |q|) (hhigh : |q| < 10 ^ (n + 1)) :
    |q| + 10 ^ (n + 1 - p) ≤ 10 ^ (n + 1) := by
  have hunit := ten_zpow_pos (n + 1 - p)
  obtain ⟨k, hk⟩ := hrepresentable.exists_multiple hlow
  have habs : |q| = ((|k| : ℤ) : ℚ) * 10 ^ (n + 1 - p) := by
    rw [hk, abs_mul, abs_of_pos hunit, Int.cast_abs]
  rw [habs, ← ten_zpow_sub_mul (n + 1) p, mul_comm] at hhigh
  have hfew : ((|k| : ℤ) : ℚ) < ((10 ^ p : ℤ) : ℚ) := by
    push_cast
    rw [← Int.cast_abs]
    exact lt_of_mul_lt_mul_left hhigh hunit.le
  have hroom : ((|k| : ℤ) : ℚ) + 1 ≤ ((10 ^ p : ℤ) : ℚ) := by
    exact_mod_cast (show |k| + 1 ≤ 10 ^ p from Int.add_one_le_iff.2 (by exact_mod_cast hfew))
  calc |q| + 10 ^ (n + 1 - p) = (((|k| : ℤ) : ℚ) + 1) * 10 ^ (n + 1 - p) := by
        rw [habs, add_mul, one_mul]
    _ ≤ ((10 ^ p : ℤ) : ℚ) * 10 ^ (n + 1 - p) := mul_le_mul_of_nonneg_right hroom hunit.le
    _ = 10 ^ (n + 1) := by
        rw [← ten_zpow_sub_mul (n + 1) p, mul_comm]
        push_cast
        rfl

/-- So a number close to one that `p` digits can hold does not reach the next place. -/
private theorem log_abs_le {q : ℚ} (h : Close p (q : ℝ) y) (hrepresentable : Representable p q)
    (hq : q ≠ 0) : Int.log 10 |y| ≤ Int.log 10 |q| := by
  have hroom := abs_add_unit_le hrepresentable (zpow_log_abs_le hq) (abs_lt_zpow_log q)
  have hnear : |y - q| < 10 ^ (Int.log 10 |q| + 1 - p) := by
    have hplace := abs_lt_zpow_log q
    rw [← ten_zpow_sub_mul _ p] at hplace
    have hclose := (iff_rat.1 h).trans_lt hplace
    have hpos : (0 : ℚ) < 10 ^ p := by positivity
    have hunit := ten_zpow_pos (Int.log 10 |q| + 1 - p)
    by_contra hfar
    nlinarith
  have hlt : |y| < 10 ^ (Int.log 10 |q| + 1) := by
    have := abs_sub_abs_le_abs_sub y q
    linarith
  have hne : y ≠ 0 := h.ne_zero (by exact_mod_cast hq)
  have := ten_zpow_lt_iff.1 ((zpow_log_abs_le hne).trans_lt hlt)
  omega

/-- A number that `p` digits can hold is what every number close to it is rounded to. -/
theorem nearest_eq {q : ℚ} (hp : 0 < p) (hrepresentable : Representable p q)
    (h : Close p (q : ℝ) y) : nearest p y = q := by
  rcases eq_or_ne q 0 with rfl | hq
  · have hzero : y = 0 := by
      have hclose := iff_rat.1 h
      rw [sub_zero, abs_zero] at hclose
      have hnonneg := abs_nonneg y
      have hten : (0 : ℚ) < 5 * 10 ^ p := by positivity
      exact abs_eq_zero.1 (by nlinarith)
    rw [hzero, nearest_zero]
  · have hunit := ten_zpow_pos (Int.log 10 |y| + 1 - p)
    have hleading := h.log_abs_le hrepresentable hq
    obtain ⟨k, hk⟩ := hrepresentable.exists_multiple
      ((ten_zpow_le_iff.2 hleading).trans (zpow_log_abs_le hq))
    have hdistance : 4 * |y - q| < 10 ^ (Int.log 10 |y| + 1 - p) := by
      refine (Rat.cast_lt (K := ℝ)).1 ?_
      simpa using h.distance_lt hp
    have hscaled : |y / 10 ^ (Int.log 10 |y| + 1 - p) - k| * 10 ^ (Int.log 10 |y| + 1 - p) =
        |y - q| := by
      rw [← abs_of_pos hunit, ← abs_mul, abs_of_pos hunit, sub_mul, div_mul_cancel₀ _ hunit.ne',
        ← hk]
    have hnearest : nearestEven (y / 10 ^ (Int.log 10 |y| + 1 - p)) = k := by
      refine nearestEven_eq_iff.2 (Or.inl ?_)
      nlinarith [abs_nonneg (y / 10 ^ (Int.log 10 |y| + 1 - p) - k)]
    rw [nearest, hnearest, ← hk]

/-- A decimal that is the rounding of a close number is less than one unit in its last place away,
and is exact where `p` digits can hold the number. -/
theorem decimal_accurate (hp : 0 < p) (h : Close p x y) (hx : x ≠ 0) {r : Decimal}
    (hr : r.Roomy) (hvalue : r.value = nearest p y) :
    |(r.value : ℝ) - x| < 10 ^ (r.adjustedExponent - p + 1) ∧
      ∀ q : ℚ, Representable p q → x = q → r.value = q := by
  have hne : r.value ≠ 0 := hvalue ▸ nearest_ne_zero hp (h.ne_zero hx)
  refine ⟨?_, ?_⟩
  · have hdistance := h.abs_nearest_sub_lt hp hx
    rw [← hvalue, Decimal.log_abs_value (mt Decimal.value_eq_zero_iff.2 hne)] at hdistance
    rwa [Decimal.adjustedExponent_eq hr, sub_add_eq_add_sub]
  · rintro q hq rfl
    rw [hvalue, h.nearest_eq hp hq]

end Close

end Reckon
