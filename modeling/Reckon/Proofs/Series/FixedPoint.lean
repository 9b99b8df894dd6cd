import Mathlib.Algebra.Order.BigOperators.Group.Finset
import Mathlib.Data.Real.Basic
import Reckon.Proofs.Decimal.Logarithm

/-!
# Fixed point

`StandsFor places n x e` says that the integer `n`, read with the given places, is at most `e` units
of its last place away from the real number `x`.  Sums add up their errors, a multiple multiplies
its own, and each division that is rounded adds half a unit (`abs_divHalfEven_sub_le`), each that is
cut off a whole one (`abs_tdiv_sub_le`).

A series is summed term by term, and each term may be two units off.  A sum that takes one term more
is off by two units more (`abs_sub_add_termsFrom_le`), and a sum that leaves off where the terms are
no larger than that is no worse than one that goes on (`abs_termsFrom_le_of_small`).
-/

namespace Reckon.Series

variable {places : ℕ} {m n : ℤ} {x y d e : ℝ}

/-! ## Divisions -/

/-- A rounded quotient is at most one half away. -/
theorem abs_divHalfEven_sub_le (hm : 0 < m) (n : ℤ) :
    |(divHalfEven n m : ℝ) - n / m| ≤ 1 / 2 := by
  have hmpos : (0 : ℝ) < m := by exact_mod_cast hm
  have hnear : 2 * |(n : ℝ) - m * divHalfEven n m| ≤ m := by
    exact_mod_cast two_mul_abs_sub_divHalfEven_le hm n
  have hscaled : (divHalfEven n m : ℝ) - n / m = -((n - m * divHalfEven n m) / m) := by
    field_simp
    ring
  rw [hscaled, abs_neg, abs_div, abs_of_pos hmpos, div_le_iff₀ hmpos]
  linarith

/-- A quotient that is cut off is at most one away. -/
theorem abs_tdiv_sub_le {m : ℕ} (hm : 0 < m) (n : ℤ) :
    |((n.tdiv m : ℤ) : ℝ) - n / m| ≤ 1 := by
  have hmpos : (0 : ℝ) < m := by exact_mod_cast hm
  have hrest : |n.tmod m| ≤ m := (abs_tmod_lt (by exact_mod_cast hm) n).le
  have hsplit : (n : ℝ) = m * (n.tdiv m : ℤ) + (n.tmod m : ℤ) := by
    exact_mod_cast (Int.mul_tdiv_add_tmod n m).symm
  have hscaled : ((n.tdiv m : ℤ) : ℝ) - n / m = -((n.tmod m : ℤ) / m) := by
    field_simp
    linarith
  rw [hscaled, abs_neg, abs_div, abs_of_pos hmpos, div_le_one hmpos]
  exact_mod_cast hrest

/-! ## Numbers with places -/

/-- The integer, read with the given places, is at most `e` units of the last one away from `x`. -/
def StandsFor (places : ℕ) (n : ℤ) (x e : ℝ) : Prop := |(n : ℝ) - 10 ^ places * x| ≤ e

theorem unit_cast (hplaces : places ≤ 2 ^ 20) : ((unit places : ℤ) : ℝ) = 10 ^ places := by
  rw [unit_eq hplaces]
  push_cast
  rfl

namespace StandsFor

theorem mono (h : StandsFor places n x d) (hle : d ≤ e) : StandsFor places n x e :=
  le_trans h hle

theorem add (h : StandsFor places m x d) (h' : StandsFor places n y e) :
    StandsFor places (m + n) (x + y) (d + e) := by
  unfold StandsFor at *
  have hsplit : ((m + n : ℤ) : ℝ) - 10 ^ places * (x + y) =
      (m - 10 ^ places * x) + (n - 10 ^ places * y) := by
    push_cast
    ring
  rw [hsplit]
  exact (abs_add_le _ _).trans (add_le_add h h')

theorem mul_left (k : ℤ) (h : StandsFor places n x e) :
    StandsFor places (k * n) (k * x) (|(k : ℝ)| * e) := by
  unfold StandsFor at *
  have hsplit : ((k * n : ℤ) : ℝ) - 10 ^ places * (k * x) = k * (n - 10 ^ places * x) := by
    push_cast
    ring
  rw [hsplit, abs_mul]
  exact mul_le_mul_of_nonneg_left h (abs_nonneg _)

/-- What an integer stands for may be exchanged for a number nearby. -/
theorem trans (h : StandsFor places n x d) (hxy : 10 ^ places * |x - y| ≤ e) :
    StandsFor places n y (d + e) := by
  unfold StandsFor at *
  have hmoved : |(10 : ℝ) ^ places * x - 10 ^ places * y| ≤ e := by
    rwa [← mul_sub, abs_mul, abs_of_pos (by positivity)]
  exact (abs_sub_le _ _ _).trans (add_le_add h hmoved)

end StandsFor

/-! ## Sums of terms -/

section Terms

open Finset

variable {f : ℕ → ℝ} {k terms : ℕ}

/-- The sum of so many terms of a series, from the `k`-th on. -/
noncomputable def termsFrom (f : ℕ → ℝ) (k terms : ℕ) : ℝ := ∑ j ∈ range terms, f (k + j)

@[simp] theorem termsFrom_zero (f : ℕ → ℝ) (k : ℕ) : termsFrom f k 0 = 0 := rfl

theorem termsFrom_succ (f : ℕ → ℝ) (k terms : ℕ) :
    termsFrom f k (terms + 1) = f k + termsFrom f (k + 1) terms := by
  unfold termsFrom
  rw [sum_range_succ', add_comm]
  congr 1
  refine sum_congr rfl fun j _ => ?_
  rw [show k + (j + 1) = k + 1 + j by omega]

/-- Terms of at most two units add up to at most two units each. -/
theorem abs_termsFrom_le_of_small (hsmall : ∀ j, 10 ^ places * |f (k + j)| ≤ 2) (terms : ℕ) :
    |10 ^ places * termsFrom f k terms| ≤ 2 * terms := by
  have hunit : (0 : ℝ) < 10 ^ places := by positivity
  calc |10 ^ places * termsFrom f k terms|
      = |∑ j ∈ range terms, 10 ^ places * f (k + j)| := by rw [termsFrom, mul_sum]
    _ ≤ ∑ j ∈ range terms, |10 ^ places * f (k + j)| := abs_sum_le_sum_abs _ _
    _ ≤ ∑ _j ∈ range terms, 2 := by
        refine sum_le_sum fun j _ => ?_
        rw [abs_mul, abs_of_pos hunit]
        exact hsmall j
    _ = 2 * terms := by rw [sum_const, card_range, nsmul_eq_mul, mul_comm]

/-- One term more, two units more. -/
theorem abs_sub_add_termsFrom_le {result sum term : ℤ} (hterm : StandsFor places term (f k) 2)
    (hrest : |(result : ℝ) - ((sum + term : ℤ) + 10 ^ places * termsFrom f (k + 1) terms)| ≤
      2 * terms) :
    |(result : ℝ) - (sum + 10 ^ places * termsFrom f k (terms + 1))| ≤ 2 * (terms + 1 : ℕ) := by
  have hsplit : (result : ℝ) - (sum + 10 ^ places * termsFrom f k (terms + 1)) =
      (result - ((sum + term : ℤ) + 10 ^ places * termsFrom f (k + 1) terms)) +
        (term - 10 ^ places * f k) := by
    rw [termsFrom_succ]
    push_cast
    ring
  rw [hsplit]
  unfold StandsFor at hterm
  refine (abs_add_le _ _).trans ((add_le_add hrest hterm).trans (le_of_eq ?_))
  push_cast
  ring

end Terms

end Reckon.Series
