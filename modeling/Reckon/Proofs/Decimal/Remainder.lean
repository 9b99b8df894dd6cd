import Mathlib.Data.Sign.Defs
import Reckon.Decimal.Remainder
import Reckon.Proofs.Decimal.Rounded

/-!
# Remainders

The exact remainder of two numbers is what the quotient, cut off toward zero, leaves of the first
(`remainder`).  Written with the smaller of the two exponents, the operands are whole numbers of
units, and `remMagnitude` is the remainder of their magnitudes on all of its paths
(`remMagnitude_eq`).
-/

namespace Reckon

/-- The whole part of a number: it is cut off toward zero. -/
def truncate (x : ℚ) : ℤ := if 0 ≤ x then ⌊x⌋ else ⌈x⌉

/-- The remainder that belongs to the quotient cut off toward zero. -/
def remainder (x y : ℚ) : ℚ := x - y * truncate (x / y)

theorem truncate_neg (x : ℚ) : truncate (-x) = -truncate x := by
  unfold truncate
  rcases lt_trichotomy x 0 with hneg | rfl | hpos
  · rw [if_pos (by linarith), if_neg (by linarith), Int.floor_neg]
  · simp
  · rw [if_neg (by linarith), if_pos hpos.le, Int.ceil_neg]

/-- The quotient of integers is cut off as their division cuts it off. -/
private theorem truncate_div (n k : ℤ) : truncate ((n : ℚ) / k) = n.tdiv k := by
  have hnatural : ∀ n k : ℕ, truncate ((n : ℚ) / k) = (n / k : ℕ) := by
    intro n k
    unfold truncate
    rw [if_pos (by positivity), Rat.floor_natCast_div_natCast]
    rfl
  -- signs may be taken off both
  have hsigned : ∀ (n : ℕ) (k : ℤ), truncate ((n : ℚ) / k) = (n : ℤ).tdiv k := by
    intro n k
    obtain ⟨k, rfl | rfl⟩ := Int.eq_nat_or_neg k
    · rw [Int.cast_natCast, hnatural, Int.ofNat_tdiv]
    · rw [Int.cast_neg, Int.cast_natCast, div_neg, truncate_neg, hnatural, Int.tdiv_neg,
        Int.ofNat_tdiv]
  obtain ⟨n, rfl | rfl⟩ := Int.eq_nat_or_neg n
  · rw [Int.cast_natCast, hsigned]
  · rw [Int.cast_neg, Int.cast_natCast, neg_div, truncate_neg, hsigned, Int.neg_tdiv]

/-- Whole numbers of a unit leave their whole remainder. -/
private theorem remainder_mul {n k : ℤ} {u : ℚ} (hu : 0 < u) :
    remainder (n * u) (k * u) = n.tmod k * u := by
  have hsplit : (n : ℚ) = k * (n.tdiv k : ℤ) + (n.tmod k : ℤ) := by
    exact_mod_cast (Int.mul_tdiv_add_tmod n k).symm
  unfold remainder
  rw [mul_div_mul_right _ _ hu.ne', truncate_div]
  conv_lhs => rw [hsplit]
  ring

namespace Decimal

variable {a b : Decimal}

/-! ## The remainder as a decimal -/

/-- The remainder at the smaller exponent, both operands written out to it. -/
def exactRemainder (a b : Decimal) : Decimal :=
  let exponent := min a.exponent b.exponent
  ⟨(a.coefficient * 10 ^ (a.exponent - exponent).toNat).tmod
    (b.coefficient * 10 ^ (b.exponent - exponent).toNat), exponent⟩

theorem value_exactRemainder (a b : Decimal) :
    (exactRemainder a b).value = remainder a.value b.value := by
  have hdividend := mul_ten_zpow_eq (min_le_left a.exponent b.exponent) a.coefficient
  have hdivisor := mul_ten_zpow_eq (min_le_right a.exponent b.exponent) b.coefficient
  rw [value, value, value, hdividend, hdivisor, remainder_mul (ten_zpow_pos _)]
  rfl

/-- The remainder has the sign of the dividend. -/
theorem sign_exactRemainder (a b : Decimal) :
    (exactRemainder a b).coefficient =
      a.coefficient.sign * |(exactRemainder a b).coefficient| := by
  have hscale : (10 ^ (a.exponent - min a.exponent b.exponent).toNat : ℤ).sign = 1 :=
    Int.sign_eq_one_of_pos (by positivity)
  have hsign := tmod_eq_sign_mul
    (a.coefficient * 10 ^ (a.exponent - min a.exponent b.exponent).toNat)
    (b.coefficient * 10 ^ (b.exponent - min a.exponent b.exponent).toNat)
  rwa [Int.sign_mul, hscale, mul_one] at hsign

/-- The remainder is smaller than the divisor. -/
theorem abs_value_exactRemainder_lt (hb0 : b.coefficient ≠ 0) :
    |(exactRemainder a b).value| < |b.value| := by
  have hscale : (10 ^ (b.exponent - min a.exponent b.exponent).toNat : ℤ) ≠ 0 := by positivity
  have hlt := abs_tmod_lt_abs (mul_ne_zero hb0 hscale)
    (a.coefficient * 10 ^ (a.exponent - min a.exponent b.exponent).toNat)
  have hdivisor := mul_ten_zpow_eq (min_le_right a.exponent b.exponent) b.coefficient
  have hunit := ten_zpow_pos (min a.exponent b.exponent)
  rw [abs_value, value, hdivisor, abs_mul, abs_of_pos hunit, ← Int.cast_abs]
  exact mul_lt_mul_of_pos_right (by exact_mod_cast hlt) hunit

/-! ## The paths -/

/-- On every path the remainder of the magnitudes is found, in units of the smaller exponent. -/
theorem remMagnitude_eq (ha : a.Moderate) (hb : b.Moderate) (hb0 : b.coefficient ≠ 0) :
    remMagnitude a b =
      a.coefficient.natAbs * 10 ^ (a.exponent - min a.exponent b.exponent).toNat %
        (b.coefficient.natAbs * 10 ^ (b.exponent - min a.exponent b.exponent).toNat) := by
  obtain ⟨hadigits, hage, hale⟩ := ha
  obtain ⟨-, hbge, hble⟩ := hb
  unfold remMagnitude
  dsimp only
  rw [Register.wrap_eq (by omega) (by omega), Register.wrap_eq (by omega) (by omega)]
  split
  · next h =>
    have hzero : (b.exponent - min a.exponent b.exponent).toNat = 0 := by omega
    rw [powMod_eq, hzero, pow_zero, mul_one, Nat.mul_mod, Nat.mod_mod, ← Nat.mul_mod]
  · next h =>
    have hzero : (a.exponent - min a.exponent b.exponent).toNat = 0 := by omega
    rw [hzero, pow_zero, mul_one]
    split
    · -- the dividend lies below the divisor, whose zeros are not written out
      next hgap =>
      refine (Nat.mod_eq_of_lt ?_).symm
      have hbpos : 0 < b.coefficient.natAbs := Int.natAbs_pos.2 hb0
      calc a.coefficient.natAbs < 10 ^ a.digits := lt_pow_digitCount _
        _ ≤ 10 ^ (b.exponent - min a.exponent b.exponent).toNat :=
            Nat.pow_le_pow_right (by norm_num) (by omega)
        _ ≤ b.coefficient.natAbs * 10 ^ (b.exponent - min a.exponent b.exponent).toNat :=
            Nat.le_mul_of_pos_left _ hbpos
    · next hgap =>
      rw [← pow10_natCast (by unfold largestPower; omega), Int.toNat_of_nonneg (by omega)]

/-- The remainder has no more digits than one of the operands. -/
private theorem remMagnitude_lt (ha : a.Moderate) (hb : b.Moderate) (hb0 : b.coefficient ≠ 0) :
    remMagnitude a b < 10 ^ max a.digits b.digits := by
  have hbpos : 0 < b.coefficient.natAbs := Int.natAbs_pos.2 hb0
  have hpow : ∀ {d : Decimal}, d.digits ≤ max a.digits b.digits →
      d.coefficient.natAbs < 10 ^ max a.digits b.digits := fun h =>
    (lt_pow_digitCount _).trans_le (Nat.pow_le_pow_right (by norm_num) h)
  rw [remMagnitude_eq ha hb hb0]
  rcases le_total b.exponent a.exponent with he | he
  · have hzero : (b.exponent - min a.exponent b.exponent).toNat = 0 := by omega
    rw [hzero, pow_zero, mul_one]
    exact (Nat.mod_lt _ hbpos).trans (hpow (le_max_right ..))
  · have hzero : (a.exponent - min a.exponent b.exponent).toNat = 0 := by omega
    rw [hzero, pow_zero, mul_one]
    exact (Nat.mod_le ..).trans_lt (hpow (le_max_left ..))

/-- With the sign of the dividend, what is found on any path is the exact remainder. -/
theorem eq_exactRemainder (ha : a.Moderate) (hb : b.Moderate) (hb0 : b.coefficient ≠ 0) :
    (⟨if a.isNegative then -(remMagnitude a b : ℤ) else remMagnitude a b,
      min a.exponent b.exponent⟩ : Decimal) = exactRemainder a b := by
  have hmagnitude : (remMagnitude a b : ℤ) = |(exactRemainder a b).coefficient| := by
    rw [remMagnitude_eq ha hb hb0, exactRemainder, Int.abs_eq_natAbs, Int.natAbs_tmod,
      Int.natAbs_mul, Int.natAbs_mul, Int.natAbs_pow, Int.natAbs_pow]
    rfl
  have hcoefficient : (if a.isNegative then -(remMagnitude a b : ℤ) else remMagnitude a b) =
      (exactRemainder a b).coefficient := by
    rw [hmagnitude, sign_exactRemainder]
    rcases lt_trichotomy a.coefficient 0 with hneg | hzero | hpos
    · rw [if_pos (by simpa using hneg), Int.sign_eq_neg_one_of_neg hneg]
      simp
    · simp [hzero]
    · rw [if_neg (by simpa using hpos.le), Int.sign_eq_one_of_pos hpos]
      simp
  exact congrArg (Decimal.mk · (min a.exponent b.exponent)) hcoefficient

theorem roomy_remainder (ha : a.Moderate) (hb : b.Moderate) (hb0 : b.coefficient ≠ 0) :
    (⟨if a.isNegative then -(remMagnitude a b : ℤ) else remMagnitude a b,
      min a.exponent b.exponent⟩ : Decimal).Roomy := by
  have hdigits : (⟨if a.isNegative then -(remMagnitude a b : ℤ) else remMagnitude a b,
      min a.exponent b.exponent⟩ : Decimal).digits ≤ max a.digits b.digits := by
    rw [digits_le_iff (by have := a.digits_pos; omega)]
    dsimp only
    have hlt := remMagnitude_lt ha hb hb0
    split
    · rw [abs_neg, Nat.abs_cast]
      exact_mod_cast hlt
    · rw [Nat.abs_cast]
      exact_mod_cast hlt
  have := ha.digits_lt
  have := ha.exponent_ge
  have := ha.exponent_le
  have := hb.digits_lt
  have := hb.exponent_ge
  exact ⟨by unfold largestPower; omega, by dsimp only; omega, by dsimp only; omega⟩

theorem rem_eq_round (limits : Limits) (ha : a.Moderate) (hb : b.Moderate)
    (hb0 : b.coefficient ≠ 0) : rem limits a b = (exactRemainder a b).round limits := by
  unfold rem
  rw [if_neg (by simpa using hb0)]
  exact congrArg (round limits) (eq_exactRemainder ha hb hb0)

/-- The remainder that is found is exact, and it is rounded once. -/
theorem roundsOnce_rem (limits : Limits) (ha : a.Moderate) (hb : b.Moderate)
    (hb0 : b.coefficient ≠ 0) :
    RoundsOnce limits.precision limits.maxExponent (remainder a.value b.value)
      (rem limits a b) := by
  have hroomy := eq_exactRemainder ha hb hb0 ▸ roomy_remainder ha hb hb0
  rw [rem_eq_round limits ha hb hb0]
  exact hroomy.roundsOnce (value_exactRemainder a b).symm

/-- The remainder belongs to the quotient cut off toward zero.  It is smaller than the divisor, has
the sign of the dividend unless it is zero, and can be written with the smaller of the two
exponents; so written and rounded once it is the result. -/
theorem rem_eq_exact_remainder_rounded (limits : Limits) (ha : a.Moderate) (hb : b.Moderate)
    (hb0 : b.value ≠ 0) :
    (exactRemainder a b).exponent = min a.exponent b.exponent ∧
      (exactRemainder a b).value = a.value - b.value * truncate (a.value / b.value) ∧
      |(exactRemainder a b).value| < |b.value| ∧
      ((exactRemainder a b).value = 0 ∨
        SignType.sign (exactRemainder a b).value = SignType.sign a.value) ∧
      rem limits a b = (exactRemainder a b).round limits := by
  have hb0' : b.coefficient ≠ 0 := by simpa using hb0
  refine ⟨rfl, value_exactRemainder a b, abs_value_exactRemainder_lt hb0', ?_,
    rem_eq_round limits ha hb hb0'⟩
  rw [value_eq_zero_iff, or_iff_not_imp_left]
  intro hne
  have hpos := abs_pos.2 hne
  have hsign := sign_exactRemainder a b
  generalize exactRemainder a b = r at *
  rcases lt_trichotomy a.coefficient 0 with hneg | hzero | hpositive
  · rw [Int.sign_eq_neg_one_of_neg hneg] at hsign
    rw [sign_neg (value_lt_zero_iff.2 hneg), sign_neg (value_lt_zero_iff.2 (by omega))]
  · rw [hzero, Int.sign_zero, zero_mul] at hsign
    exact absurd hsign hne
  · rw [Int.sign_eq_one_of_pos hpositive] at hsign
    rw [sign_pos (value_pos_iff.2 hpositive), sign_pos (value_pos_iff.2 (by omega))]

/-- Twenty zeros are not written out to find that seven of that size leave one when divided by
three, and the remainder is negative as the dividend is. -/
theorem remainder_of_seven_with_zeros :
    (⟨-7, 20⟩ : Decimal).Moderate ∧ (⟨30, -1⟩ : Decimal).Moderate ∧
      (⟨30, -1⟩ : Decimal).value ≠ 0 ∧ rem .default ⟨-7, 20⟩ ⟨30, -1⟩ = .ok ⟨-10, -1⟩ ∧
      |(exactRemainder ⟨-7, 20⟩ ⟨30, -1⟩).value| < |(⟨30, -1⟩ : Decimal).value| := by
  have hdividend : (⟨-7, 20⟩ : Decimal).Moderate := ⟨by decide, by decide, by decide⟩
  have hdivisor : (⟨30, -1⟩ : Decimal).Moderate := ⟨by decide, by decide, by decide⟩
  have hne : (⟨30, -1⟩ : Decimal).value ≠ 0 := by simp
  obtain ⟨-, -, hlt, -, hrem⟩ := rem_eq_exact_remainder_rounded .default hdividend hdivisor hne
  exact ⟨hdividend, hdivisor, hne, hrem.trans (by decide), hlt⟩

end Decimal

end Reckon
