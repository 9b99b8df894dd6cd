import Mathlib.Analysis.SpecialFunctions.Log.Deriv
import Reckon.Proofs.Series.FixedPoint

/-!
# The inverse hyperbolic tangent in fixed point

Each power of the argument is found from the one before it by a rounded product, and is never more
than one unit off (`standsFor_next_power`): the argument is small enough that the error of the
power before has lost more than half of itself before the next half unit is added.  With the
division that is cut off, each term of the series is then at most two units off, and so are the
terms that are left out when a power has become zero (`abs_atanhFrom_sub_le`).  The series has so
many terms that the rest of it does not show, and twice the sum is the logarithm of
`(1 + x) / (1 - x)` (`standsFor_two_mul_atanh`).
-/

namespace Reckon.Series

open Finset

variable {places : ℕ} {z : ℤ} {x y : ℝ}

/-! ## The powers -/

/-- The next power is found within one unit, if the last one was. -/
theorem standsFor_next_power (hpos : 0 < places) (hplaces : places ≤ 2 ^ 20) {a b : ℝ}
    {power square : ℤ} (ha : |a| ≤ 2 / 5) (hb : |b| ≤ 4 / 25) (hpower : StandsFor places power a 1)
    (hsquare : StandsFor places square b (1 / 2)) :
    StandsFor places (divHalfEven (power * square) (unit places)) (a * b) 1 := by
  have hten : (10 : ℝ) ≤ 10 ^ places := le_self_pow₀ (by norm_num) hpos.ne'
  have hrounded := abs_divHalfEven_sub_le (unit_pos places) (power * square)
  rw [unit_cast hplaces] at hrounded
  unfold StandsFor at *
  generalize (10 : ℝ) ^ places = N at *
  have hN : 0 < N := by linarith
  -- the product of the two errors has places to spare
  have hproduct : ((power * square : ℤ) : ℝ) / N - N * (a * b) =
      a * (square - N * b) + b * (power - N * a) + (power - N * a) * (square - N * b) / N := by
    push_cast
    field_simp
    ring
  have hfirst : |a * (square - N * b)| ≤ 2 / 5 * (1 / 2) := by
    rw [abs_mul]
    exact mul_le_mul ha hsquare (abs_nonneg _) (by norm_num)
  have hsecond : |b * (power - N * a)| ≤ 4 / 25 * 1 := by
    rw [abs_mul]
    exact mul_le_mul hb hpower (abs_nonneg _) (by norm_num)
  have hthird : |(power - N * a) * (square - N * b) / N| ≤ 1 * (1 / 2) / 10 := by
    rw [abs_div, abs_mul, abs_of_pos hN]
    exact div_le_div₀ (by norm_num) (mul_le_mul hpower hsquare (abs_nonneg _) (by norm_num))
      (by norm_num) hten
  have hdistance : |((power * square : ℤ) : ℝ) / N - N * (a * b)| ≤ 1 / 2 := by
    rw [hproduct]
    refine (abs_add_three _ _ _).trans ?_
    linarith
  calc |(divHalfEven (power * square) (unit places) : ℝ) - N * (a * b)|
      ≤ |(divHalfEven (power * square) (unit places) : ℝ) - ((power * square : ℤ) : ℝ) / N| +
          |((power * square : ℤ) : ℝ) / N - N * (a * b)| := abs_sub_le _ _ _
    _ ≤ 1 := by linarith

/-! ## The terms -/

/-- A term of the series, a power divided by its exponent. -/
noncomputable def artanhTerm (x : ℝ) (k : ℕ) : ℝ := x ^ (2 * k + 1) / (2 * k + 1 : ℕ)

/-- No term is larger than the power that the terms begin with. -/
private theorem abs_artanhTerm_le (hx : |x| ≤ 1) (k j : ℕ) :
    |artanhTerm x (k + j)| ≤ |x ^ (2 * k + 1)| := by
  have hposition : (1 : ℝ) ≤ (2 * (k + j) + 1 : ℕ) := by
    exact_mod_cast (by omega : 1 ≤ 2 * (k + j) + 1)
  unfold artanhTerm
  rw [abs_div, Nat.abs_cast, abs_pow, abs_pow]
  exact (div_le_self (by positivity) hposition).trans
    (pow_le_pow_of_le_one (abs_nonneg x) hx (by omega))

/-- A power that is one unit off, divided by its exponent, is two off. -/
private theorem standsFor_term {power : ℤ} {k : ℕ}
    (hpower : StandsFor places power (x ^ (2 * k + 1)) 1) :
    StandsFor places (power.tdiv (2 * k + 1 : ℕ)) (artanhTerm x k) 2 := by
  have hcut := abs_tdiv_sub_le (show 0 < 2 * k + 1 by omega) power
  have hposition : (1 : ℝ) ≤ (2 * k + 1 : ℕ) := by exact_mod_cast (by omega : 1 ≤ 2 * k + 1)
  have hquotient : |(power : ℝ) / (2 * k + 1 : ℕ) - 10 ^ places * artanhTerm x k| ≤ 1 := by
    unfold artanhTerm
    rw [← mul_div_assoc, ← sub_div, abs_div, Nat.abs_cast]
    exact (div_le_self (abs_nonneg _) hposition).trans hpower
  refine (abs_sub_le _ ((power : ℝ) / (2 * k + 1 : ℕ)) _).trans ?_
  linarith

/-- Each term adds at most two units of error to the sum. -/
theorem abs_atanhFrom_sub_le (hpos : 0 < places) (hplaces : places ≤ 2 ^ 20) (hx : |x| ≤ 2 / 5)
    {square : ℤ} (hsquare : StandsFor places square (x ^ 2) (1 / 2)) :
    ∀ (terms k : ℕ) (power sum : ℤ), StandsFor places power (x ^ (2 * k + 1)) 1 →
      |(atanhFrom (unit places) square terms power (2 * k + 1) sum : ℝ) -
        (sum + 10 ^ places * termsFrom (artanhTerm x) k terms)| ≤ 2 * terms := by
  intro terms
  induction terms with
  | zero => intro k power sum _; simp [atanhFrom]
  | succ terms ih =>
      intro k power sum hpower
      unfold atanhFrom
      split
      · next hzero =>
        -- a power that does not show is followed by terms that do not
        have hunit : (0 : ℝ) < 10 ^ places := by positivity
        have hsmall : 10 ^ places * |x ^ (2 * k + 1)| ≤ 1 := by
          unfold StandsFor at hpower
          rwa [hzero, Int.cast_zero, zero_sub, abs_neg, abs_mul, abs_of_pos hunit] at hpower
        rw [← sub_sub, sub_self, zero_sub, abs_neg]
        refine abs_termsFrom_le_of_small (fun j => ?_) (terms + 1)
        have hterm := mul_le_mul_of_nonneg_left
          (abs_artanhTerm_le (x := x) (by linarith) k j) hunit.le
        linarith
      · have ha : |x ^ (2 * k + 1)| ≤ 2 / 5 := by
          rw [abs_pow, pow_succ]
          refine le_trans (mul_le_of_le_one_left (abs_nonneg x) ?_) hx
          exact pow_le_one₀ (abs_nonneg x) (by linarith)
        have hb : |x ^ 2| ≤ 4 / 25 := by
          rw [abs_pow]
          exact (pow_le_pow_left₀ (abs_nonneg x) hx 2).trans (by norm_num)
        have hnext := standsFor_next_power hpos hplaces ha hb hpower hsquare
        rw [← pow_add, show 2 * k + 1 + 2 = 2 * (k + 1) + 1 by ring] at hnext
        exact abs_sub_add_termsFrom_le (standsFor_term hpower) (ih (k + 1) _ _ hnext)

/-! ## The sum -/

/-- The rest of the series does not show. -/
private theorem rest_le (places : ℕ) (hx : |x| ≤ 2 / 5) :
    10 ^ places * (|x| ^ (2 * seriesLength places + 1) / (1 - x ^ 2)) ≤ 1 := by
  have hdenominator : (1 : ℝ) / 2 ≤ 1 - x ^ 2 := by
    have := pow_le_pow_left₀ (abs_nonneg x) hx 2
    rw [sq_abs] at this
    linarith
  have hpow : |x| ^ (2 * seriesLength places + 1) ≤ (1 / 10) ^ places * (2 / 5) := by
    calc |x| ^ (2 * seriesLength places + 1) ≤ (2 / 5) ^ (2 * seriesLength places + 1) :=
          pow_le_pow_left₀ (abs_nonneg x) hx _
      _ ≤ (2 / 5) ^ (4 * places + 1) :=
          pow_le_pow_of_le_one (by norm_num) (by norm_num) (by unfold seriesLength; omega)
      _ = ((2 / 5) ^ 4) ^ places * (2 / 5) := by rw [pow_succ, pow_mul]
      _ ≤ (1 / 10) ^ places * (2 / 5) := by
          have := pow_le_pow_left₀ (by norm_num) (by norm_num : ((2 : ℝ) / 5) ^ 4 ≤ 1 / 10) places
          linarith
  have hcancel : (10 : ℝ) ^ places * (1 / 10) ^ places = 1 := by
    rw [← mul_pow]
    norm_num
  rw [← mul_div_assoc, div_le_one (by linarith)]
  have hscaled := mul_le_mul_of_nonneg_left hpow (by positivity : (0 : ℝ) ≤ 10 ^ places)
  rw [← mul_assoc, hcancel] at hscaled
  linarith

/-- The sum of the series is half the logarithm of `(1 + x) / (1 - x)` at the argument as it is
given. -/
private theorem standsFor_atanh_exactly (hpos : 0 < places) (hplaces : places ≤ 2 ^ 20)
    (hx : |x| ≤ 2 / 5) (hz : (z : ℝ) = 10 ^ places * x) :
    StandsFor places (atanh places z) (1 / 2 * Real.log ((1 + x) / (1 - x)))
      (2 * seriesLength places + 1) := by
  have hunit : (0 : ℝ) < 10 ^ places := by positivity
  have hsquare : StandsFor places (divHalfEven (z * z) (unit places)) (x ^ 2) (1 / 2) := by
    have hrounded := abs_divHalfEven_sub_le (unit_pos places) (z * z)
    have hexact : ((z * z : ℤ) : ℝ) / (unit places : ℤ) = 10 ^ places * x ^ 2 := by
      rw [unit_cast hplaces]
      push_cast
      rw [hz]
      field_simp
    rwa [hexact] at hrounded
  have hpower : StandsFor places z (x ^ (2 * 0 + 1)) 1 := by
    unfold StandsFor
    rw [hz]
    simp
  have hsum := abs_atanhFrom_sub_le hpos hplaces hx hsquare (seriesLength places) 0 z 0 hpower
  have hseries := Real.sum_range_sub_log_div_le (x := x) (by linarith) (seriesLength places)
  have hterms : termsFrom (artanhTerm x) 0 (seriesLength places) =
      ∑ i ∈ range (seriesLength places), x ^ (2 * i + 1) / (2 * (i : ℝ) + 1) := by
    unfold termsFrom artanhTerm
    refine sum_congr rfl fun j _ => ?_
    rw [zero_add]
    push_cast
    rfl
  rw [← hterms] at hseries
  have hrest := mul_le_mul_of_nonneg_left hseries hunit.le
  rw [← abs_of_pos hunit, ← abs_mul, abs_of_pos hunit, mul_sub, abs_sub_comm] at hrest
  unfold StandsFor atanh
  dsimp only
  rw [Int.cast_zero, zero_add] at hsum
  refine (abs_sub_le _ (10 ^ places * termsFrom (artanhTerm x) 0 (seriesLength places)) _).trans ?_
  exact add_le_add hsum (hrest.trans (rest_le places hx))

/-- Logarithms of numbers above `c` differ by at most the difference of the numbers over `c`. -/
theorem abs_log_sub_log_le {c : ℝ} (hc : 0 < c) (hx : c ≤ x) (hy : c ≤ y) :
    |Real.log x - Real.log y| ≤ |x - y| / c := by
  have hone : ∀ {x y : ℝ}, c ≤ x → c ≤ y → Real.log x - Real.log y ≤ |x - y| / c := by
    intro x y hx hy
    have hypos := hc.trans_le hy
    calc Real.log x - Real.log y = Real.log (x / y) := (Real.log_div (by linarith) hypos.ne').symm
      _ ≤ x / y - 1 := Real.log_le_sub_one_of_pos (div_pos (by linarith) hypos)
      _ = (x - y) / y := by rw [sub_div, div_self hypos.ne']
      _ ≤ |x - y| / y := div_le_div_of_nonneg_right (le_abs_self _) hypos.le
      _ ≤ |x - y| / c := div_le_div_of_nonneg_left (abs_nonneg _) hc hy
  rw [abs_le]
  have hother := hone hy hx
  rw [abs_sub_comm] at hother
  exact ⟨by linarith, hone hx hy⟩

/-- Twice the sum of the series is the logarithm of `(1 + x) / (1 - x)`, also when the argument is
one unit off. -/
theorem standsFor_two_mul_atanh (hplaces1 : 2 ≤ places) (hplaces : places ≤ 2 ^ 20)
    (hx : |x| ≤ 1 / 3) (hz : StandsFor places z x 1) :
    StandsFor places (2 * atanh places z) (Real.log ((1 + x) / (1 - x)))
      (4 * seriesLength places + 6) := by
  have hunit : (0 : ℝ) < 10 ^ places := by positivity
  have hhundred : (100 : ℝ) ≤ 10 ^ places := by
    calc (100 : ℝ) = 10 ^ 2 := by norm_num
      _ ≤ 10 ^ places := pow_le_pow_right₀ (by norm_num) hplaces1
  have hz' : (z : ℝ) = 10 ^ places * (z / 10 ^ places) := by field_simp
  have hmoved : 10 ^ places * |z / 10 ^ places - x| ≤ 1 := by
    rw [← abs_of_pos hunit, ← abs_mul, abs_of_pos hunit, mul_sub, ← hz']
    exact hz
  generalize (z : ℝ) / 10 ^ places = t at hz' hmoved
  have hnear : |t - x| ≤ 1 / 100 := by nlinarith [abs_nonneg (t - x)]
  have ht : |t| ≤ 2 / 5 := by
    have := abs_sub_abs_le_abs_sub t x
    linarith
  obtain ⟨hxlow, hxhigh⟩ := abs_le.1 hx
  obtain ⟨htlow, hthigh⟩ := abs_le.1 ht
  have hlog : |Real.log ((1 + t) / (1 - t)) - Real.log ((1 + x) / (1 - x))| ≤ 4 * |t - x| := by
    rw [Real.log_div (by linarith) (by linarith), Real.log_div (by linarith) (by linarith)]
    have hplus := abs_log_sub_log_le (c := 1 / 2) (by norm_num)
      (by linarith : 1 / 2 ≤ 1 + t) (by linarith : 1 / 2 ≤ 1 + x)
    have hminus := abs_log_sub_log_le (c := 1 / 2) (by norm_num)
      (by linarith : 1 / 2 ≤ 1 - t) (by linarith : 1 / 2 ≤ 1 - x)
    rw [add_sub_add_left_eq_sub] at hplus
    rw [sub_sub_sub_cancel_left, abs_sub_comm x t] at hminus
    rw [sub_sub_sub_comm]
    refine (abs_sub _ _).trans ?_
    linarith
  have hsum := (standsFor_atanh_exactly (by omega) hplaces ht hz').mul_left 2
  rw [Int.cast_ofNat, ← mul_assoc, mul_one_div_cancel (by norm_num), one_mul, abs_two] at hsum
  refine (hsum.trans (y := Real.log ((1 + x) / (1 - x))) (e := 4) ?_).mono (by linarith)
  calc 10 ^ places * |Real.log ((1 + t) / (1 - t)) - Real.log ((1 + x) / (1 - x))|
      ≤ 10 ^ places * (4 * |t - x|) := mul_le_mul_of_nonneg_left hlog hunit.le
    _ = 4 * (10 ^ places * |t - x|) := by ring
    _ ≤ 4 := by linarith

end Reckon.Series
