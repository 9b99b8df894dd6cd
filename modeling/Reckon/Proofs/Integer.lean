import Mathlib.Algebra.Order.Ring.Abs
import Mathlib.Data.Nat.Log
import Mathlib.Tactic.Linarith
import Mathlib.Tactic.Ring
import Reckon.Integer.DigitCount
import Reckon.Integer.HalfEven
import Reckon.Integer.PowMod
import Reckon.Integer.PowerOfTen

/-!
# Digit counts and nearest quotients

Two facts about the integer functions carry everything that is said about rounding.  A positive
number of `k` digits lies between two neighbouring powers of ten (`lt_pow_digitCount`,
`pow_digitCount_le`), which makes `digitCount` the logarithm to the base ten, plus one
(`digitCount_eq_log`).  And `divHalfEven` never lies farther than half a unit from the quotient
(`two_mul_abs_sub_divHalfEven_le`); from this follow its bounds, and that it is exact where the
division is.  Which of two nearest integers is taken is part of `divHalfEven_near` only.
-/

namespace Reckon

/-! ## Digit counts -/

private theorem lt_pow_digitLevel (n : ℕ) : n < 10 ^ 2 ^ digitLevel n := by
  have hbits : n < 2 ^ (n.log2 + 1) := Nat.lt_log2_self
  have hlevel : n.log2 / 3 + 1 < 2 ^ digitLevel n := Nat.lt_log2_self
  calc n < 2 ^ (n.log2 + 1) := hbits
    _ ≤ 2 ^ (3 * (n.log2 / 3 + 1)) := Nat.pow_le_pow_right (by decide) (by omega)
    _ = 8 ^ (n.log2 / 3 + 1) := by rw [Nat.pow_mul]
    _ ≤ 10 ^ (n.log2 / 3 + 1) := Nat.pow_le_pow_left (by decide) _
    _ ≤ 10 ^ 2 ^ digitLevel n := Nat.pow_le_pow_right (by decide) hlevel.le

private theorem lt_pow_digitCountBelow (level : ℕ) :
    ∀ n : ℕ, n < 10 ^ 2 ^ level → n < 10 ^ digitCountBelow level n := by
  induction level with
  | zero =>
      intro n h
      simpa [digitCountBelow] using h
  | succ level ih =>
      intro n h
      unfold digitCountBelow
      split
      · next hlow => exact ih n hlow
      · next hhigh =>
        -- the digits above the middle are a number of half the length
        have hupper : n / 10 ^ 2 ^ level < 10 ^ 2 ^ level := by
          apply Nat.div_lt_of_lt_mul
          rwa [← Nat.pow_add, ← Nat.two_mul, ← Nat.pow_succ']
        have hcount := ih _ hupper
        rw [Nat.pow_add, Nat.mul_comm]
        exact (Nat.div_lt_iff_lt_mul (Nat.pow_pos (by decide))).1 hcount

private theorem pow_digitCountBelow_le (level : ℕ) :
    ∀ n : ℕ, 0 < n → 10 ^ (digitCountBelow level n - 1) ≤ n := by
  induction level with
  | zero =>
      intro n h
      exact h
  | succ level ih =>
      intro n h
      unfold digitCountBelow
      split
      · exact ih n h
      · next hhigh =>
        have hpos : 0 < n / 10 ^ 2 ^ level :=
          Nat.div_pos (not_lt.1 hhigh) (Nat.pow_pos (by decide))
        have hcount := ih _ hpos
        show 10 ^ (2 ^ level + digitCountBelow level (n / 10 ^ 2 ^ level) - 1) ≤ n
        rw [Nat.add_sub_assoc (digitCountBelow_pos ..), Nat.pow_add, Nat.mul_comm]
        exact (Nat.mul_le_mul_right _ hcount).trans (Nat.div_mul_le_self ..)

/-- A number lies below the power of ten that has one digit more. -/
theorem lt_pow_digitCount (n : ℕ) : n < 10 ^ digitCount n :=
  lt_pow_digitCountBelow _ n (lt_pow_digitLevel n)

/-- A positive number reaches the least power of ten that has as many digits. -/
theorem pow_digitCount_le {n : ℕ} (h : 0 < n) : 10 ^ (digitCount n - 1) ≤ n :=
  pow_digitCountBelow_le _ n h

theorem digitCount_eq_log (n : ℕ) : digitCount n = Nat.log 10 n + 1 := by
  rcases Nat.eq_zero_or_pos n with rfl | hpos
  · simp
  · have hcount := digitCount_pos n
    have hlog : Nat.log 10 n = digitCount n - 1 := by
      rw [Nat.log_eq_iff (Or.inr ⟨by norm_num, hpos.ne'⟩)]
      refine ⟨pow_digitCount_le hpos, ?_⟩
      rw [Nat.sub_add_cancel hcount]
      exact lt_pow_digitCount n
    omega

/-- A number has at most `k` digits when it lies below the power of ten of exponent `k`. -/
theorem digitCount_le_iff {n k : ℕ} (hk : 0 < k) : digitCount n ≤ k ↔ n < 10 ^ k := by
  rcases Nat.eq_zero_or_pos n with rfl | hpos
  · rw [digitCount_zero]
    exact ⟨fun _ => Nat.pow_pos (by norm_num), fun _ => hk⟩
  · rw [digitCount_eq_log, Nat.succ_le_iff, Nat.log_lt_iff_lt_pow (by norm_num) hpos.ne']

/-! ## Powers -/

/-- Within the bound the power is the one that is written. -/
theorem pow10_natCast {exponent : ℕ} (h : exponent ≤ largestPower) :
    pow10 exponent = 10 ^ exponent := by
  simp [pow10, Nat.min_eq_left h]

/-- Beyond the bound it is the power of the bound. -/
theorem pow10_of_le {exponent : ℤ} (h : largestPower ≤ exponent) :
    pow10 exponent = 10 ^ largestPower := by
  rw [pow10, Nat.min_eq_right (by omega), Nat.pow_eq]

/-- A power of ten within the bound, in integers. -/
theorem pow10_cast {exponent : ℕ} (h : exponent ≤ largestPower) :
    (pow10 exponent : ℤ) = 10 ^ exponent := by
  rw [pow10_natCast h]
  push_cast
  rfl

/-- Squaring remainders gives the remainder of the power. -/
theorem powMod_eq (base exponent modulus : ℕ) :
    powMod base exponent modulus = base ^ exponent % modulus := by
  fun_induction powMod base exponent modulus with
  | case1 => simp
  | case2 exponent h half square heven ih =>
      have hsplit : exponent = exponent / 2 + exponent / 2 := by omega
      simp only [square, half, ih]
      conv => rhs; rw [hsplit, Nat.pow_add]
      simp [Nat.mul_mod]
  | case3 exponent h half square hodd ih =>
      have hsplit : exponent = exponent / 2 + exponent / 2 + 1 := by omega
      simp only [square, half, ih]
      conv => rhs; rw [hsplit, Nat.pow_succ, Nat.pow_add]
      simp [Nat.mul_mod]

/-! ## Nearest quotients -/

/-- The remainder has the sign of the numerator. -/
theorem tmod_eq_sign_mul (n m : ℤ) : n.tmod m = n.sign * |n.tmod m| := by
  rcases lt_trichotomy n 0 with hneg | rfl | hpos
  · -- the division cuts off toward zero, so opposite numerators leave opposite remainders
    have hopposite : 0 ≤ (-n).tmod m := Int.tmod_nonneg m (by omega)
    rw [Int.neg_tmod] at hopposite
    rw [Int.sign_eq_neg_one_of_neg hneg, abs_of_nonpos (by omega)]
    omega
  · simp
  · rw [Int.sign_eq_one_of_pos hpos, abs_of_nonneg (Int.tmod_nonneg m hpos.le), one_mul]

theorem abs_tmod_lt_abs {m : ℤ} (hm : m ≠ 0) (n : ℤ) : |n.tmod m| < |m| := by
  rw [Int.abs_eq_natAbs, Int.abs_eq_natAbs, Int.natAbs_tmod]
  exact_mod_cast Nat.mod_lt n.natAbs (Int.natAbs_pos.2 hm)

theorem abs_tmod_lt {m : ℤ} (hm : 0 < m) (n : ℤ) : |n.tmod m| < m :=
  (abs_tmod_lt_abs hm.ne' n).trans_eq (abs_of_pos hm)

/-- A step away from zero passes the exact quotient by what the remainder leaves of the divisor. -/
private theorem abs_sub_away {n m : ℤ} (hm : 0 < m) (hne : n.tmod m ≠ 0) :
    |n - m * (n.tdiv m + n.sign)| = m - |n.tmod m| := by
  have hsplit : m * n.tdiv m + n.tmod m = n := Int.mul_tdiv_add_tmod n m
  have hsmall := abs_tmod_lt hm n
  have hmove : n - m * (n.tdiv m + n.sign) = n.sign * (|n.tmod m| - m) := by
    have hsign := tmod_eq_sign_mul n m
    linarith [mul_add m (n.tdiv m) n.sign, mul_sub n.sign |n.tmod m| m, mul_comm m n.sign]
  have hn : n ≠ 0 := by
    rintro rfl
    simp at hne
  rw [hmove, abs_mul, Int.abs_sign_of_ne_zero hn, one_mul, abs_of_nonpos (by omega)]
  ring

/-- The rounded quotient is less than half a unit away from the exact one, or it is even and lies
half a unit away. -/
theorem divHalfEven_near {m : ℤ} (hm : 0 < m) (n : ℤ) :
    2 * |n - m * divHalfEven n m| < m ∨
      2 * |n - m * divHalfEven n m| = m ∧ divHalfEven n m % 2 = 0 := by
  have hsplit : m * n.tdiv m + n.tmod m = n := Int.mul_tdiv_add_tmod n m
  have hsmall := abs_tmod_lt hm n
  have hkept : |n - m * n.tdiv m| = |n.tmod m| := by
    congr 1
    linarith
  -- a remainder of at least half the divisor is not zero
  have haway : m ≤ 2 * |n.tmod m| →
      n.sign ≠ 0 ∧ |n - m * (n.tdiv m + n.sign)| = m - |n.tmod m| := by
    intro hhalf
    have hne : n.tmod m ≠ 0 := by
      intro hzero
      rw [hzero, abs_zero] at hhalf
      omega
    refine ⟨fun hsign => hne ?_, abs_sub_away hm hne⟩
    rw [Int.sign_eq_zero_iff_zero.1 hsign, Int.zero_tmod]
  unfold divHalfEven
  rw [← Int.abs_eq_natAbs]
  dsimp only
  split
  · next hlt =>
    have := Int.compare_eq_lt.1 hlt
    omega
  · next hgt =>
    have := Int.compare_eq_gt.1 hgt
    rw [(haway (by omega)).2]
    omega
  · next heq =>
    have := Int.compare_eq_eq.1 heq
    split
    · omega
    · obtain ⟨hsign, hdistance⟩ := haway (by omega)
      rw [hdistance]
      rcases Int.sign_trichotomy n with h | h | h <;> omega

/-- The rounded quotient is at most half a unit away from the exact one. -/
theorem two_mul_abs_sub_divHalfEven_le {m : ℤ} (hm : 0 < m) (n : ℤ) :
    2 * |n - m * divHalfEven n m| ≤ m := by
  rcases divHalfEven_near hm n with hlt | ⟨heq, -⟩ <;> omega

/-- Rounding adds half a unit at most. -/
theorem two_mul_mul_abs_divHalfEven_le {m : ℤ} (hm : 0 < m) (n : ℤ) :
    2 * (m * |divHalfEven n m|) ≤ 2 * |n| + m := by
  have hnear := two_mul_abs_sub_divHalfEven_le hm n
  have htriangle := abs_sub_abs_le_abs_sub (m * divHalfEven n m) n
  rw [abs_mul, abs_of_pos hm, abs_sub_comm] at htriangle
  omega

/-- An integer below the quotient stays below the rounded one. -/
theorem le_divHalfEven {k m n : ℤ} (hm : 0 < m) (h : m * k ≤ n) : k ≤ divHalfEven n m := by
  have hnear := two_mul_abs_sub_divHalfEven_le hm n
  have hle := le_abs_self (n - m * divHalfEven n m)
  by_contra hlt
  -- otherwise the quotient would lie a whole unit away
  have hstep : m * divHalfEven n m ≤ m * (k - 1) :=
    Int.mul_le_mul_of_nonneg_left (by omega) hm.le
  rw [mul_sub, mul_one] at hstep
  omega

theorem divHalfEven_le {k m n : ℤ} (hm : 0 < m) (h : n ≤ m * k) : divHalfEven n m ≤ k := by
  have hopposite := le_divHalfEven (k := -k) (n := -n) hm (by rw [mul_neg]; omega)
  rw [divHalfEven_neg] at hopposite
  omega

theorem abs_divHalfEven_le {k m n : ℤ} (hm : 0 < m) (h : |n| ≤ m * k) :
    |divHalfEven n m| ≤ k := by
  rw [abs_le] at h ⊢
  exact ⟨le_divHalfEven hm (by rw [mul_neg]; exact h.1), divHalfEven_le hm h.2⟩

theorem le_abs_divHalfEven {k m n : ℤ} (hm : 0 < m) (h : m * k ≤ |n|) :
    k ≤ |divHalfEven n m| := by
  rcases abs_cases n with ⟨habs, -⟩ | ⟨habs, -⟩
  · rw [habs] at h
    exact (le_divHalfEven hm h).trans (le_abs_self _)
  · rw [habs] at h
    have hopposite := le_divHalfEven hm h
    rw [divHalfEven_neg] at hopposite
    exact hopposite.trans (neg_le_abs _)

/-- A division without remainder is exact. -/
theorem divHalfEven_mul {m : ℤ} (hm : 0 < m) (k : ℤ) : divHalfEven (m * k) m = k :=
  le_antisymm (divHalfEven_le hm le_rfl) (le_divHalfEven hm le_rfl)

end Reckon
