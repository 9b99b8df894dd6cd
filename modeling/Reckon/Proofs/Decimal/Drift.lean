import Mathlib.Tactic.Positivity
import Reckon.Proofs.Decimal.Power
import Reckon.Proofs.Decimal.CorrectRounding

/-!
# The error of repeated squaring

A power is found through products that are rounded each, and the errors add up.  `Drifted u k x y`
says that `y` is what `k` roundings may have made of `x`, when each of them moves its number by at
most `u` times its magnitude; a product has drifted by the roundings of both factors
(`Drifted.mul`).

Squaring rounds twice for every binary digit of the exponent, and doubles what has drifted before.
All in all that is less than three roundings for each unit of the exponent.

A product on the way can leave the range, and then nothing near the power is at hand.  What remains
true is that *some* number as near to the power as a result would be lies outside the range: the
powers of a base move away from one, so that once a power has left the range the later ones have
too.  `Found` has the three cases, `Found.bind` is what one more product makes of them, and
`found_powBySquaring` the run of all products.
-/

namespace Reckon

variable {u x x' y y' z : ℚ} {j k : ℕ}

/-! ## Accumulated roundings -/

/-- The number `y` is what `k` roundings, each of relative error `u`, may have made of `x`. -/
def Drifted (u : ℚ) (k : ℕ) (x y : ℚ) : Prop := |y - x| ≤ ((1 + u) ^ k - 1) * |x|

namespace Drifted

theorem refl (hu : 0 ≤ u) (k : ℕ) (x : ℚ) : Drifted u k x x := by
  have hpow : 1 ≤ (1 + u) ^ k := one_le_pow₀ (by linarith)
  unfold Drifted
  rw [sub_self, abs_zero]
  exact mul_nonneg (by linarith) (abs_nonneg x)

theorem mono (hu : 0 ≤ u) (h : Drifted u j x y) (hle : j ≤ k) : Drifted u k x y := by
  have hpow : (1 + u) ^ j ≤ (1 + u) ^ k := pow_le_pow_right₀ (by linarith) hle
  exact h.trans (mul_le_mul_of_nonneg_right (by linarith) (abs_nonneg x))

theorem abs_le (h : Drifted u k x y) : |y| ≤ (1 + u) ^ k * |x| := by
  have hdistance := abs_sub_abs_le_abs_sub y x
  unfold Drifted at h
  linarith

theorem le_abs (h : Drifted u k x y) : (2 - (1 + u) ^ k) * |x| ≤ |y| := by
  have hdistance := abs_sub_abs_le_abs_sub x y
  rw [abs_sub_comm] at hdistance
  unfold Drifted at h
  linarith

theorem trans (hu : 0 ≤ u) (h : Drifted u j x y) (h' : Drifted u k y z) :
    Drifted u (j + k) x z := by
  have hpow : 1 ≤ (1 + u) ^ k := one_le_pow₀ (by linarith)
  calc |z - x| ≤ |z - y| + |y - x| := abs_sub_le z y x
    _ ≤ ((1 + u) ^ k - 1) * ((1 + u) ^ j * |x|) + ((1 + u) ^ j - 1) * |x| := by
        refine add_le_add (le_trans h' ?_) h
        exact mul_le_mul_of_nonneg_left h.abs_le (by linarith)
    _ = ((1 + u) ^ (j + k) - 1) * |x| := by ring

theorem mul_left (h : Drifted u k x y) (z : ℚ) : Drifted u k (z * x) (z * y) := by
  unfold Drifted at *
  rw [← mul_sub, abs_mul, abs_mul, mul_left_comm]
  exact mul_le_mul_of_nonneg_left h (abs_nonneg z)

theorem mul (hu : 0 ≤ u) (h : Drifted u j x y) (h' : Drifted u k x' y') :
    Drifted u (j + k) (x * x') (y * y') := by
  have hfirst := h.mul_left x'
  have hsecond := h'.mul_left y
  rw [mul_comm x', mul_comm x'] at hfirst
  exact hfirst.trans hu hsecond

end Drifted

/-- Rounding to `p` digits is one rounding of relative error `5 * 10 ^ (-p)`. -/
theorem drifted_nearest (p : ℕ) (x : ℚ) : Drifted (5 / 10 ^ p) 1 x (nearest p x) := by
  have hpos : (0 : ℚ) < 10 ^ p := by positivity
  have hmoved := abs_sub_nearest_mul_le p x
  unfold Drifted
  rw [abs_sub_comm, pow_one, add_sub_cancel_left, div_mul_eq_mul_div, le_div_iff₀ hpos]
  exact hmoved

/-- Few small roundings make little more than their sum. -/
theorem one_add_pow_mul_le (hu : 0 ≤ u) (hu1 : u ≤ 1) (k : ℕ) : (1 + u) ^ k * (1 - k * u) ≤ 1 := by
  have hbernoulli : 1 - k * u ≤ (1 - u) ^ k := by
    have := one_add_mul_le_pow (a := -u) (by linarith) k
    rwa [mul_neg, ← sub_eq_add_neg, ← sub_eq_add_neg] at this
  calc (1 + u) ^ k * (1 - k * u) ≤ (1 + u) ^ k * (1 - u) ^ k :=
        mul_le_mul_of_nonneg_left hbernoulli (by positivity)
    _ = (1 - u ^ 2) ^ k := by rw [← mul_pow]; ring
    _ ≤ 1 := pow_le_one₀ (by nlinarith) (by nlinarith)

namespace Decimal

variable {p : ℕ} {m : ℤ} {a b r : Decimal} {result : Except ArithmeticFault Decimal}

/-! ## What is found for a power -/

/-- What has been found for the number `x` with `k` roundings: a number near it; nothing, because a
number near it is too large; or zero, because a number near it is too small. -/
inductive Found (p : ℕ) (m : ℤ) (k : ℕ) (x : ℚ) : Except ArithmeticFault Decimal → Prop
  | near {r : Decimal} (hnormal : r.Normal p m) (hne : r.value ≠ 0)
      (hr : Drifted (5 / 10 ^ p) k x r.value) : Found p m k x (.ok r)
  | tooLarge {y : ℚ} (hy : Drifted (5 / 10 ^ p) k x y) (hlarge : 10 ^ (m + 1) ≤ |y|) :
      Found p m k x (.error .overflow)
  | tooSmall {r : Decimal} {y : ℚ} (hnormal : r.Normal p m) (hzero : r.value = 0)
      (hy : Drifted (5 / 10 ^ p) k x y) (hsmall : |y| < 10 ^ (-m)) : Found p m k x (.ok r)

theorem Found.mono {j k : ℕ} (h : Found p m j x result) (hle : j ≤ k) : Found p m k x result := by
  have hu : (0 : ℚ) ≤ 5 / 10 ^ p := by positivity
  cases h with
  | near hnormal hne hr => exact .near hnormal hne (hr.mono hu hle)
  | tooLarge hy hlarge => exact .tooLarge (hy.mono hu hle) hlarge
  | tooSmall hnormal hzero hy hsmall => exact .tooSmall hnormal hzero (hy.mono hu hle) hsmall

/-- A product of numbers that have drifted is found with one more rounding. -/
theorem found_mulTo (h : Manageable p m) {j k : ℕ} (ha : a.Moderate) (hb : b.Moderate)
    (ha0 : a.value ≠ 0) (hb0 : b.value ≠ 0) (hx : Drifted (5 / 10 ^ p) j x a.value)
    (hx' : Drifted (5 / 10 ^ p) k x' b.value) :
    Found p m (j + k + 1) (x * x') (mulTo p m a b) := by
  have hu : (0 : ℚ) ≤ 5 / 10 ^ p := by positivity
  have hdrifted := (hx.mul hu hx').trans hu (drifted_nearest p (a.value * b.value))
  have hne := nearest_ne_zero h.precision_pos (mul_ne_zero ha0 hb0)
  obtain ⟨hhigh, hr⟩ | ⟨hlow, r, hr, hzero⟩ | ⟨-, r, hr, hvalue⟩ :=
    (roundsOnce_mulTo (p := p) (m := m) ha hb).outcome h
  · rw [hr]
    exact .tooLarge hdrifted ((ten_zpow_le_iff.2 hhigh).trans (zpow_log_abs_le hne))
  · rw [hr]
    exact .tooSmall (normal_mulTo h ha hb hr) hzero hdrifted
      ((abs_lt_zpow_log _).trans_le (ten_zpow_le_iff.2 hlow))
  · rw [hr]
    exact .near (normal_mulTo h ha hb hr) (hvalue ▸ hne) (hvalue ▸ hdrifted)

/-- A product with a factor zero is zero. -/
private theorem mulTo_eq_zero (h : Manageable p m) (ha : a.Moderate) (hb : b.Moderate)
    (hzero : a.value = 0) : ∃ r, mulTo p m a b = .ok r ∧ r.Normal p m ∧ r.value = 0 := by
  have hproduct := roundsOnce_mulTo (p := p) (m := m) ha hb
  obtain ⟨r, hr, hr0⟩ := (hproduct.isZero_iff h).2 (Or.inl (by rw [hzero, zero_mul]))
  exact ⟨r, hr, normal_mulTo h ha hb hr, by simpa using hr0⟩

/-- Once a power has become too large, so has every later one. -/
private theorem exists_large_pow {i n : ℕ} (hm : 0 < m) (hpow : (1 + 5 / 10 ^ p : ℚ) ^ k ≤ 3 / 2)
    (hi : i ≤ n) (hy : Drifted (5 / 10 ^ p) k (x ^ i) y) (hlarge : 10 ^ (m + 1) ≤ |y|) :
    ∃ y', Drifted (5 / 10 ^ p) k (x ^ n) y' ∧ 10 ^ (m + 1) ≤ |y'| := by
  have hten : (10 : ℚ) ^ (1 : ℤ) ≤ 10 ^ (m + 1) := ten_zpow_le_iff.2 (by omega)
  have hgrows : 1 ≤ |x| := by
    by_contra hlt
    have hsmall := pow_le_one₀ (abs_nonneg x) (not_le.1 hlt).le (n := i)
    have hbound := hy.abs_le
    rw [abs_pow] at hbound
    rw [zpow_one] at hten
    nlinarith [pow_nonneg (abs_nonneg x) i]
  refine ⟨x ^ (n - i) * y, ?_, ?_⟩
  · have hlater := hy.mul_left (x ^ (n - i))
    rwa [← pow_add, Nat.sub_add_cancel hi] at hlater
  · rw [abs_mul, abs_pow]
    exact hlarge.trans (le_mul_of_one_le_left (abs_nonneg y) (one_le_pow₀ hgrows))

/-- Once a power has become too small, so has every later one. -/
private theorem exists_small_pow {i n : ℕ} (hm : 0 < m) (hpow : (1 + 5 / 10 ^ p : ℚ) ^ k ≤ 3 / 2)
    (hi : i ≤ n) (hy : Drifted (5 / 10 ^ p) k (x ^ i) y) (hsmall : |y| < 10 ^ (-m)) :
    ∃ y', Drifted (5 / 10 ^ p) k (x ^ n) y' ∧ |y'| < 10 ^ (-m) := by
  have hten : (10 : ℚ) ^ (-m) ≤ 10 ^ (-1 : ℤ) := ten_zpow_le_iff.2 (by omega)
  have hshrinks : |x| ≤ 1 := by
    by_contra hlt
    have hlarge := one_le_pow₀ (not_le.1 hlt).le (n := i)
    have hbound := hy.le_abs
    rw [abs_pow] at hbound
    rw [zpow_neg_one] at hten
    nlinarith
  refine ⟨x ^ (n - i) * y, ?_, ?_⟩
  · have hlater := hy.mul_left (x ^ (n - i))
    rwa [← pow_add, Nat.sub_add_cancel hi] at hlater
  · rw [abs_mul, abs_pow]
    refine lt_of_le_of_lt (mul_le_of_le_one_left (abs_nonneg y) ?_) hsmall
    exact pow_le_one₀ (abs_nonneg x) hshrinks

/-- One more product, formed with a power that has been found: where the power is near at hand the
product is found, a power that is too large has no product, and one that is too small is zero. -/
private theorem Found.bind (hm : 0 < m) {i n k k' : ℕ}
    {product : Decimal → Except ArithmeticFault Decimal} (hfound : Found p m k (x ^ i) result)
    (hpow : (1 + 5 / 10 ^ p : ℚ) ^ k ≤ 3 / 2) (hi : i ≤ n) (hk : k ≤ k')
    (hproduct : ∀ r, r.Normal p m → r.value ≠ 0 → Drifted (5 / 10 ^ p) k (x ^ i) r.value →
      Found p m k' (x ^ n) (product r))
    (hzero : ∀ r, r.Normal p m → r.value = 0 →
      ∃ r', product r = .ok r' ∧ r'.Normal p m ∧ r'.value = 0) :
    Found p m k' (x ^ n) (result.bind product) := by
  have hu : (0 : ℚ) ≤ 5 / 10 ^ p := by positivity
  cases hfound with
  | near hnormal hne hr => exact hproduct _ hnormal hne hr
  | tooLarge hy hlarge =>
      obtain ⟨y', hy', hlarge'⟩ := exists_large_pow hm hpow hi hy hlarge
      exact .tooLarge (hy'.mono hu hk) hlarge'
  | tooSmall hnormal hr0 hy hsmall =>
      obtain ⟨y', hy', hsmall'⟩ := exists_small_pow hm hpow hi hy hsmall
      obtain ⟨r', hr', hnormal', hzero'⟩ := hzero _ hnormal hr0
      change Found p m k' (x ^ n) (product _)
      rw [hr']
      exact .tooSmall hnormal' hzero' (hy'.mono hu hk) hsmall'

/-- Squaring finds the power with fewer than three roundings for each unit of the exponent. -/
theorem found_powBySquaring (h : Manageable p m) (ha : a.Moderate) (ha0 : a.value ≠ 0) :
    ∀ n : ℕ, (1 + 5 / 10 ^ p : ℚ) ^ (3 * n) ≤ 3 / 2 →
      Found p m (3 * n - 1) (a.value ^ n) (powBySquaring p m a n) := by
  have hu : (0 : ℚ) ≤ 5 / 10 ^ p := by positivity
  have hm := h.maxExponent_pos
  intro n
  induction n using Nat.strong_induction_on with
  | _ n ih =>
      intro hpow
      have hfewer : ∀ {k : ℕ}, k ≤ 3 * n → (1 + 5 / 10 ^ p : ℚ) ^ k ≤ 3 / 2 := fun hk =>
        (pow_le_pow_right₀ (by linarith) hk).trans hpow
      rw [powBySquaring]
      by_cases hn : n = 0
      · rw [if_pos hn, hn, pow_zero, ← value_one]
        exact .near (normal_one h) (by simp) (.refl hu _ _)
      · rw [if_neg hn]
        have hhalf := ih (n / 2) (by omega) (hfewer (by omega))
        -- the square of the power with half the exponent, and then the base once more
        have hsquare : Found p m (2 * (3 * (n / 2) - 1) + 1) (a.value ^ (n / 2 + n / 2))
            ((powBySquaring p m a (n / 2)).bind fun half => mulTo p m half half) := by
          refine hhalf.bind hm (hfewer (by omega)) (by omega) (by omega) ?_ ?_
          · intro half hnormal hne hdrifted
            have hmoderate := hnormal.moderate h
            rw [pow_add, two_mul]
            exact found_mulTo h hmoderate hmoderate hne hne hdrifted hdrifted
          · intro half hnormal hzero
            have hmoderate := hnormal.moderate h
            exact mulTo_eq_zero h hmoderate hmoderate hzero
        have hassoc := bind_assoc (powBySquaring p m a (n / 2))
          (fun half => mulTo p m half half)
          (fun square => if n % 2 = 0 then pure square else mulTo p m square a)
        rw [← hassoc]
        refine hsquare.bind hm (hfewer (by omega)) (by omega) (by omega) ?_ ?_
        · intro square hnormal hne hdrifted
          by_cases heven : n % 2 = 0
          · rw [if_pos heven, show n = n / 2 + n / 2 by omega]
            exact .near hnormal hne (hdrifted.mono hu (by omega))
          · rw [if_neg heven]
            have hproduct := found_mulTo h (hnormal.moderate h) ha hne ha0 hdrifted
              (.refl hu 0 a.value)
            rw [← pow_succ, show n / 2 + n / 2 + 1 = n by omega] at hproduct
            exact hproduct.mono (by omega)
        · intro square hnormal hzero
          split
          · exact ⟨square, rfl, hnormal, hzero⟩
          · exact mulTo_eq_zero h (hnormal.moderate h) ha hzero

end Decimal

end Reckon
