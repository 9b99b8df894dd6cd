import Mathlib.Analysis.Complex.Exponential
import Reckon.Proofs.Series.FixedPoint

/-!
# The exponential in fixed point

Each term of the series is the one before it times the argument, divided by its position, and so is
its error, to which the rounding adds one half.  The first term is exact, and from the second
position on the argument is at most three quarters of the position; so no term is ever more than two
units off (`standsFor_next_term`).  The sum is off by two units for each term
(`abs_expFrom_sub_le`), and its rest does not show (`standsFor_exp`).
-/

namespace Reckon.Series

open Finset

variable {places : ℕ} {x : ℝ} {z : ℤ}

/-! ## The terms -/

/-- A term of the series. -/
noncomputable def expTerm (x : ℝ) (k : ℕ) : ℝ := x ^ k / k.factorial

theorem expTerm_succ (x : ℝ) (k : ℕ) : expTerm x (k + 1) = expTerm x k * (x / (k + 1 : ℕ)) := by
  unfold expTerm
  rw [pow_succ, Nat.factorial_succ]
  push_cast
  field_simp

/-- The next term is found within two units, if the last one was; the first one is exact. -/
private theorem standsFor_next_term (hplaces : places ≤ 2 ^ 20) (hx : |x| ≤ 3 / 2)
    (hz : (z : ℝ) = 10 ^ places * x) {k : ℕ} {term : ℤ}
    (hterm : StandsFor places term (expTerm x k) (min (2 * k) 2)) :
    StandsFor places (divHalfEven (term * z) (unit places * (k + 1 : ℕ)))
      (expTerm x (k + 1)) 2 := by
  have hunit : (0 : ℝ) < 10 ^ places := by positivity
  have hposition : (0 : ℝ) < (k + 1 : ℕ) := by positivity
  have hrounded := abs_divHalfEven_sub_le (m := unit places * (k + 1 : ℕ))
    (mul_pos (unit_pos places) (by positivity)) (term * z)
  have hquotient : ((term * z : ℤ) : ℝ) / (unit places * (k + 1 : ℕ) : ℤ) =
      term * (x / (k + 1 : ℕ)) := by
    push_cast
    rw [unit_cast hplaces, hz]
    field_simp
  -- the error of the last term, times the argument and divided by the position
  have hcarried : |(term : ℝ) * (x / (k + 1 : ℕ)) - 10 ^ places * expTerm x (k + 1)| ≤ 3 / 2 := by
    rw [expTerm_succ, ← mul_assoc, ← sub_mul, abs_mul, abs_div, Nat.abs_cast]
    unfold StandsFor at hterm
    rcases Nat.eq_zero_or_pos k with rfl | hk
    · have hexact := hterm.trans (min_le_left _ _)
      rw [Nat.cast_zero, mul_zero] at hexact
      rw [le_antisymm hexact (abs_nonneg _), zero_mul]
      norm_num
    · have htwo : (2 : ℝ) ≤ (k + 1 : ℕ) := by exact_mod_cast (by omega : 2 ≤ k + 1)
      have hshare : |x| / (k + 1 : ℕ) ≤ 3 / 4 := by
        rw [div_le_iff₀ hposition]
        linarith
      have hproduct := mul_le_mul (hterm.trans (min_le_right _ _)) hshare (by positivity)
        (by norm_num)
      exact hproduct.trans (by norm_num)
  rw [hquotient] at hrounded
  refine (abs_sub_le _ (term * (x / (k + 1 : ℕ))) _).trans ?_
  linarith

/-- From the first power on no term is larger than the one before it. -/
private theorem abs_expTerm_le (hx : |x| ≤ 3 / 2) {k : ℕ} (hk : 0 < k) (j : ℕ) :
    |expTerm x (k + j)| ≤ |expTerm x k| := by
  induction j with
  | zero => rfl
  | succ j ih =>
      have hposition : (2 : ℝ) ≤ (k + j + 1 : ℕ) := by exact_mod_cast (by omega : 2 ≤ k + j + 1)
      have hshare : |x / (k + j + 1 : ℕ)| ≤ 1 := by
        rw [abs_div, Nat.abs_cast, div_le_one (by positivity)]
        linarith
      rw [← add_assoc, expTerm_succ, abs_mul]
      exact (mul_le_of_le_one_right (abs_nonneg _) hshare).trans ih

/-- Each term adds at most two units of error to the sum. -/
theorem abs_expFrom_sub_le (hplaces : places ≤ 2 ^ 20) (hx : |x| ≤ 3 / 2)
    (hz : (z : ℝ) = 10 ^ places * x) :
    ∀ (terms k : ℕ) (term sum : ℤ), StandsFor places term (expTerm x k) (min (2 * k) 2) →
      |(expFrom (unit places) z terms term (k + 1) sum : ℝ) -
        (sum + 10 ^ places * termsFrom (expTerm x) (k + 1) terms)| ≤ 2 * terms := by
  intro terms
  induction terms with
  | zero => intro k term sum _; simp [expFrom]
  | succ terms ih =>
      intro k term sum hterm
      have hnext := standsFor_next_term hplaces hx hz hterm
      unfold expFrom
      dsimp only
      generalize divHalfEven (term * z) (unit places * (k + 1 : ℕ)) = next at hnext ⊢
      split
      · next hzero =>
        -- a term that does not show is followed by terms that do not
        have hunit : (0 : ℝ) < 10 ^ places := by positivity
        have hsmall : 10 ^ places * |expTerm x (k + 1)| ≤ 2 := by
          unfold StandsFor at hnext
          rwa [hzero, Int.cast_zero, zero_sub, abs_neg, abs_mul, abs_of_pos hunit] at hnext
        rw [← sub_sub, sub_self, zero_sub, abs_neg]
        refine abs_termsFrom_le_of_small (fun j => ?_) (terms + 1)
        exact (mul_le_mul_of_nonneg_left (abs_expTerm_le hx k.succ_pos j) hunit.le).trans hsmall
      · have hlater : (2 : ℝ) ≤ min (2 * ((k + 1 : ℕ) : ℝ)) 2 := by
          refine le_min ?_ le_rfl
          push_cast
          linarith [(by positivity : (0 : ℝ) ≤ k)]
        exact abs_sub_add_termsFrom_le hnext (ih (k + 1) next _ (hnext.mono hlater))

/-! ## The sum -/

/-- What is left of the series after `n` terms. -/
private theorem abs_exp_sub_sum_le (hx : |x| ≤ 3 / 2) {n : ℕ} (hn : 2 ≤ n) :
    |Real.exp x - ∑ m ∈ range n, x ^ m / m.factorial| ≤ |x| ^ n / n.factorial * 2 := by
  have hshare : ‖(x : ℂ)‖ / n.succ ≤ 1 / 2 := by
    have hthree : (3 : ℝ) ≤ n.succ := by exact_mod_cast (by omega : 3 ≤ n.succ)
    rw [Complex.norm_real, Real.norm_eq_abs, div_le_iff₀ (by positivity)]
    linarith
  have hbound := Complex.exp_bound' hshare
  rw [Complex.norm_real, Real.norm_eq_abs] at hbound
  have hcast : Complex.exp x - ∑ m ∈ range n, (x : ℂ) ^ m / m.factorial =
      ((Real.exp x - ∑ m ∈ range n, x ^ m / m.factorial : ℝ) : ℂ) := by
    push_cast
    rfl
  rwa [hcast, Complex.norm_real, Real.norm_eq_abs] at hbound

/-- The rest of the series does not show. -/
private theorem rest_le_one (places : ℕ) (hx : |x| ≤ 3 / 2) :
    10 ^ places * (|x| ^ (seriesLength places + 1) / (seriesLength places + 1).factorial * 2) ≤
      1 := by
  have hfactorial : (120 * 6 ^ (2 * places + 6) : ℝ) ≤ (seriesLength places + 1).factorial := by
    have hbound := Nat.factorial_mul_pow_le_factorial (m := 5) (n := 2 * places + 6)
    rw [show 5 + (2 * places + 6) = seriesLength places + 1 by unfold seriesLength; ring] at hbound
    exact_mod_cast hbound
  have hpow : |x| ^ (seriesLength places + 1) ≤ (3 / 2) ^ 11 * (9 / 4) ^ places := by
    calc |x| ^ (seriesLength places + 1) ≤ (3 / 2) ^ (seriesLength places + 1) :=
          pow_le_pow_left₀ (abs_nonneg x) hx _
      _ = (3 / 2) ^ 11 * (9 / 4) ^ places := by
          rw [show seriesLength places + 1 = 11 + 2 * places by unfold seriesLength; ring, pow_add,
            pow_mul]
          norm_num
  have hthirtySix : (10 : ℝ) ^ places * (9 / 4) ^ places ≤ 36 ^ places := by
    rw [← mul_pow]
    exact pow_le_pow_left₀ (by norm_num) (by norm_num) places
  have hsplit : (120 * 6 ^ (2 * places + 6) : ℝ) = 120 * 6 ^ 6 * 36 ^ places := by
    rw [pow_add, pow_mul]
    norm_num
    ring
  rw [div_mul_eq_mul_div, ← mul_div_assoc, div_le_one (by positivity)]
  calc 10 ^ places * (|x| ^ (seriesLength places + 1) * 2)
      ≤ 10 ^ places * ((3 / 2) ^ 11 * (9 / 4) ^ places * 2) := by gcongr
    _ = (3 / 2) ^ 11 * 2 * (10 ^ places * (9 / 4) ^ places) := by ring
    _ ≤ 120 * 6 ^ 6 * 36 ^ places :=
        mul_le_mul (by norm_num) hthirtySix (by positivity) (by positivity)
    _ ≤ (seriesLength places + 1).factorial := hsplit ▸ hfactorial

/-- The sum of the series is the exponential of the argument as it is given. -/
theorem standsFor_exp (hplaces : places ≤ 2 ^ 20) (hx : |x| ≤ 3 / 2)
    (hz : (z : ℝ) = 10 ^ places * x) :
    StandsFor places (exp places z) (Real.exp x) (2 * seriesLength places + 1) := by
  have hunit : (0 : ℝ) < 10 ^ places := by positivity
  have hfirst : StandsFor places (unit places) (expTerm x 0) (min (2 * (0 : ℕ)) 2) := by
    unfold StandsFor expTerm
    rw [unit_cast hplaces]
    simp
  have hsum := abs_expFrom_sub_le hplaces hx hz (seriesLength places) 0 (unit places)
    (unit places) hfirst
  have hseries := abs_exp_sub_sum_le hx (n := seriesLength places + 1)
    (by unfold seriesLength; omega)
  have hterms : ((unit places : ℤ) : ℝ) +
      10 ^ places * termsFrom (expTerm x) 1 (seriesLength places) =
        10 ^ places * ∑ m ∈ range (seriesLength places + 1), x ^ m / m.factorial := by
    have hall : termsFrom (expTerm x) 0 (seriesLength places + 1) =
        ∑ m ∈ range (seriesLength places + 1), x ^ m / m.factorial := by
      unfold termsFrom expTerm
      exact sum_congr rfl fun j _ => by rw [zero_add]
    rw [← hall, termsFrom_succ, unit_cast hplaces]
    simp [expTerm]
    ring
  have hrest := mul_le_mul_of_nonneg_left hseries hunit.le
  rw [← abs_of_pos hunit, ← abs_mul, abs_of_pos hunit, mul_sub, abs_sub_comm] at hrest
  rw [zero_add, hterms] at hsum
  unfold StandsFor exp
  refine (abs_sub_le _ (10 ^ places *
    ∑ m ∈ range (seriesLength places + 1), x ^ m / m.factorial) _).trans ?_
  exact add_le_add hsum (hrest.trans (rest_le_one places hx))

end Reckon.Series
