import Mathlib.Algebra.Order.Field.Power
import Mathlib.Data.Int.Log
import Mathlib.Data.Rat.Floor
import Mathlib.Tactic.Positivity
import Mathlib.Tactic.FieldSimp
import Reckon.Decimal.Order
import Reckon.Proofs.Integer

/-!
# The number that a decimal stands for

`Decimal.value` is the rational number `coefficient × 10 ^ exponent`, and every statement about
exactness is a statement about it.  `Decimal.leading` is the exponent of the leading digit without
the bounds of a register; `log_abs_value` says that it is the logarithm of the value.

Two sizes of decimals occur.  A `Moderate` one has fewer than `2 ^ 31` digits and an exponent of
magnitude at most `2 ^ 60`: literals are moderate by assumption, and results are because they are
rounded.  A `Roomy` one is what an operation on moderate numbers may produce before it is rounded.
Both leave the register enough room that no sum of exponents wraps or stops at an end
(`wrap_eq`, `saturate_eq`), and keep the powers of ten below the cap of `pow10`.
-/

namespace Reckon

namespace Register

theorem wrap_eq {n : ℤ} (hleast : -2 ^ 63 ≤ n) (hgreatest : n < 2 ^ 63) : wrap n = n :=
  wrap_of_inRange ⟨by unfold least; omega, by unfold greatest; omega⟩

theorem saturate_eq {n : ℤ} (hleast : -2 ^ 63 ≤ n) (hgreatest : n < 2 ^ 63) : saturate n = n :=
  saturate_of_inRange ⟨by unfold least; omega, by unfold greatest; omega⟩

theorem saturate_eq_max_min (n : ℤ) : saturate n = max least (min n greatest) := rfl

end Register

theorem ten_zpow_pos (n : ℤ) : (0 : ℚ) < 10 ^ n := zpow_pos (by norm_num) n

theorem ten_zpow_add (m n : ℤ) : (10 : ℚ) ^ (m + n) = 10 ^ m * 10 ^ n :=
  zpow_add₀ (by norm_num) m n

theorem ten_zpow_le_iff {m n : ℤ} : (10 : ℚ) ^ m ≤ 10 ^ n ↔ m ≤ n :=
  zpow_le_zpow_iff_right₀ (by norm_num)

theorem ten_zpow_lt_iff {m n : ℤ} : (10 : ℚ) ^ m < 10 ^ n ↔ m < n :=
  zpow_lt_zpow_iff_right₀ (by norm_num)

/-- A power of ten with a non-negative exponent is a whole number. -/
theorem ten_zpow_toNat {n : ℤ} (h : 0 ≤ n) : (10 : ℚ) ^ n = ((10 ^ n.toNat : ℤ) : ℚ) := by
  conv_lhs => rw [← Int.toNat_of_nonneg h, zpow_natCast]
  push_cast
  rfl

/-- A number can be written with a smaller exponent. -/
theorem mul_ten_zpow_eq {e e' : ℤ} (h : e' ≤ e) (c : ℤ) :
    (c : ℚ) * 10 ^ e = ((c * 10 ^ (e - e').toNat : ℤ) : ℚ) * 10 ^ e' := by
  rw [Int.cast_mul, ← ten_zpow_toNat (by omega), mul_assoc, ← ten_zpow_add, sub_add_cancel]

theorem le_log {x : ℚ} {n : ℤ} (h : (10 : ℚ) ^ n ≤ x) : n ≤ Int.log 10 x :=
  (Int.zpow_le_iff_le_log (by norm_num) ((ten_zpow_pos n).trans_le h)).1 (by exact_mod_cast h)

/-- The logarithm is found between two neighbouring powers of ten. -/
theorem log_eq {x : ℚ} {n : ℤ} (hle : (10 : ℚ) ^ n ≤ x) (hlt : x < 10 ^ (n + 1)) :
    Int.log 10 x = n := by
  have hpos : 0 < x := (ten_zpow_pos n).trans_le hle
  have hbelow := (Int.lt_zpow_iff_log_lt (b := 10) (by norm_num) hpos).1 (by exact_mod_cast hlt)
  have habove := le_log hle
  omega

theorem zpow_log_abs_le {x : ℚ} (h : x ≠ 0) : (10 : ℚ) ^ Int.log 10 |x| ≤ |x| :=
  mod_cast Int.zpow_log_le_self (b := 10) (by norm_num) (abs_pos.2 h)

theorem abs_lt_zpow_log (x : ℚ) : |x| < 10 ^ (Int.log 10 |x| + 1) :=
  mod_cast Int.lt_zpow_succ_log_self (b := 10) (by norm_num) |x|

namespace Decimal

/-- The number that a decimal stands for. -/
def value (d : Decimal) : ℚ := d.coefficient * 10 ^ d.exponent

/-- The exponent of the leading digit. -/
def leading (d : Decimal) : ℤ := d.exponent + d.digits - 1

/-- A decimal that leaves arithmetic enough room: fewer than `2 ^ 31` digits, and an exponent of
magnitude at most `2 ^ 60`. -/
structure Moderate (d : Decimal) : Prop where
  digits_lt : d.digits < 2 ^ 31
  exponent_ge : -2 ^ 60 ≤ d.exponent
  exponent_le : d.exponent ≤ 2 ^ 60

/-- A decimal that can be rounded without meeting the ends of the register or the cap on powers of
ten. -/
structure Roomy (d : Decimal) : Prop where
  digits_le : d.digits ≤ largestPower
  exponent_ge : -2 ^ 62 ≤ d.exponent
  exponent_le : d.exponent ≤ 2 ^ 62

theorem Moderate.roomy {d : Decimal} (h : d.Moderate) : d.Roomy := by
  obtain ⟨hdigits, hge, hle⟩ := h
  exact ⟨by unfold largestPower; omega, by omega, by omega⟩

theorem Roomy.inRange {d : Decimal} (h : d.Roomy) : Register.InRange d.exponent := by
  obtain ⟨-, hge, hle⟩ := h
  unfold Register.InRange Register.least Register.greatest
  omega

theorem Moderate.neg {d : Decimal} (h : d.Moderate) : (-d).Moderate :=
  ⟨by rw [digits_neg]; exact h.digits_lt, h.exponent_ge, h.exponent_le⟩

theorem Moderate.abs {d : Decimal} (h : d.Moderate) : d.abs.Moderate :=
  ⟨h.digits_lt, h.exponent_ge, h.exponent_le⟩

theorem moderate_one : Decimal.one.Moderate := ⟨by decide, by decide, by decide⟩

theorem moderate_two : (ofInt 2).Moderate := ⟨by decide, by decide, by decide⟩

/-! ## Digits of the coefficient -/

theorem digits_pos (d : Decimal) : 0 < d.digits := digitCount_pos _

/-- Digits are counted in the coefficient alone. -/
theorem digits_mk (c e e' : ℤ) : (⟨c, e⟩ : Decimal).digits = (⟨c, e'⟩ : Decimal).digits := rfl

theorem digits_le_iff {d : Decimal} {k : ℕ} (hk : 0 < k) :
    d.digits ≤ k ↔ |d.coefficient| < 10 ^ k := by
  unfold digits
  rw [digitCount_le_iff hk, Int.abs_eq_natAbs]
  exact_mod_cast Iff.rfl

theorem abs_coefficient_lt (d : Decimal) : |d.coefficient| < 10 ^ d.digits :=
  (digits_le_iff d.digits_pos).1 le_rfl

theorem pow_le_abs_coefficient {d : Decimal} (h : d.coefficient ≠ 0) :
    10 ^ (d.digits - 1) ≤ |d.coefficient| := by
  have hle := pow_digitCount_le (Int.natAbs_pos.2 h)
  rw [Int.abs_eq_natAbs]
  exact_mod_cast hle

theorem digits_eq_one_of_zero {d : Decimal} (h : d.coefficient = 0) : d.digits = 1 := by
  simp [digits, h]

theorem coefficient_ne_zero_of_lt_digits {d : Decimal} {k : ℕ} (hk : 0 < k) (h : k < d.digits) :
    d.coefficient ≠ 0 := by
  intro hzero
  have := digits_eq_one_of_zero hzero
  omega

/-- The digits are counted by the two neighbouring powers of ten. -/
theorem digits_eq {d : Decimal} {k : ℕ} (hle : 10 ^ k ≤ |d.coefficient|)
    (hlt : |d.coefficient| < 10 ^ (k + 1)) : d.digits = k + 1 := by
  have hupper := (digits_le_iff k.succ_pos).2 hlt
  rcases Nat.eq_zero_or_pos k with rfl | hk
  · have := d.digits_pos
    omega
  · have hlower : ¬ d.digits ≤ k := by
      rw [digits_le_iff hk]
      omega
    omega

/-! ## The value -/

@[simp] theorem value_neg (d : Decimal) : (-d).value = -d.value := by
  simp [value]

@[simp] theorem value_ofInt (n : ℤ) : (ofInt n).value = n := by
  simp [value, ofInt]

@[simp] theorem value_zero : Decimal.zero.value = 0 := by
  simp [Decimal.zero]

@[simp] theorem value_one : Decimal.one.value = 1 := by
  simp [Decimal.one]

@[simp] theorem value_eq_zero_iff {d : Decimal} : d.value = 0 ↔ d.coefficient = 0 := by
  have := (ten_zpow_pos d.exponent).ne'
  simp [value, this]

theorem abs_value (d : Decimal) : |d.value| = |d.coefficient| * 10 ^ d.exponent := by
  rw [value, abs_mul, abs_of_pos (ten_zpow_pos d.exponent), Int.cast_abs]

theorem value_lt_zero_iff {d : Decimal} : d.value < 0 ↔ d.coefficient < 0 := by
  rw [value, ← not_iff_not, not_lt, not_lt, mul_nonneg_iff_of_pos_right (ten_zpow_pos _)]
  exact_mod_cast Iff.rfl

theorem value_pos_iff {d : Decimal} : 0 < d.value ↔ 0 < d.coefficient := by
  rw [value, mul_pos_iff_of_pos_right (ten_zpow_pos _)]
  exact_mod_cast Iff.rfl

/-- Zeros at the end of the coefficient may be counted in the exponent. -/
theorem value_mul_pow (c e : ℤ) (n : ℕ) :
    (⟨c * 10 ^ n, e⟩ : Decimal).value = (⟨c, e + n⟩ : Decimal).value := by
  simp only [value, ten_zpow_add, zpow_natCast]
  push_cast
  ring

theorem zpow_leading_le {d : Decimal} (h : d.coefficient ≠ 0) :
    (10 : ℚ) ^ d.leading ≤ |d.value| := by
  have hcoefficient : ((10 ^ (d.digits - 1) : ℤ) : ℚ) ≤ (|d.coefficient| : ℤ) := by
    exact_mod_cast pow_le_abs_coefficient h
  have hdigits := d.digits_pos
  calc (10 : ℚ) ^ d.leading = ((10 ^ (d.digits - 1) : ℤ) : ℚ) * 10 ^ d.exponent := by
        rw [leading, show d.exponent + d.digits - 1 = ((d.digits - 1 : ℕ) : ℤ) + d.exponent by
          omega, ten_zpow_add, zpow_natCast]
        push_cast
        rfl
    _ ≤ (|d.coefficient| : ℤ) * 10 ^ d.exponent :=
        mul_le_mul_of_nonneg_right hcoefficient (ten_zpow_pos _).le
    _ = |d.value| := (abs_value d).symm

theorem abs_value_lt (d : Decimal) : |d.value| < 10 ^ (d.leading + 1) := by
  have hcoefficient : ((|d.coefficient| : ℤ) : ℚ) < ((10 ^ d.digits : ℤ) : ℚ) := by
    exact_mod_cast d.abs_coefficient_lt
  calc |d.value| = (|d.coefficient| : ℤ) * 10 ^ d.exponent := abs_value d
    _ < ((10 ^ d.digits : ℤ) : ℚ) * 10 ^ d.exponent :=
        mul_lt_mul_of_pos_right hcoefficient (ten_zpow_pos _)
    _ = 10 ^ (d.leading + 1) := by
        rw [leading, show d.exponent + d.digits - 1 + 1 = (d.digits : ℤ) + d.exponent by omega,
          ten_zpow_add, zpow_natCast]
        push_cast
        rfl

/-- The exponent of the leading digit is the logarithm of the magnitude. -/
theorem log_abs_value {d : Decimal} (h : d.coefficient ≠ 0) : Int.log 10 |d.value| = d.leading :=
  log_eq (zpow_leading_le h) d.abs_value_lt

/-- Equal numbers have their leading digits in the same place. -/
theorem leading_eq_of_value_eq {d d' : Decimal} (hne : d.coefficient ≠ 0)
    (hvalue : d.value = d'.value) : d.leading = d'.leading := by
  have hne' : d'.coefficient ≠ 0 := by
    rwa [ne_eq, ← value_eq_zero_iff, ← hvalue, value_eq_zero_iff]
  rw [← log_abs_value hne, ← log_abs_value hne', hvalue]

/-! ## Functions of one decimal -/

theorem adjustedExponent_eq {d : Decimal} (h : d.Roomy) : d.adjustedExponent = d.leading := by
  obtain ⟨hdigits, hge, hle⟩ := h
  unfold largestPower at hdigits
  have := d.digits_pos
  unfold adjustedExponent leading
  rw [Register.saturate_eq (by omega) (by omega)]
  omega

theorem rescale_eq {d : Decimal} {e : ℤ} (he : e ≤ d.exponent)
    (hgap : d.exponent - e ≤ largestPower) :
    d.rescale e = ⟨d.coefficient * 10 ^ (d.exponent - e).toNat, e⟩ := by
  have hcast : (pow10 (d.exponent - e) : ℤ) = 10 ^ (d.exponent - e).toNat := by
    rw [← pow10_cast (by omega), Int.toNat_of_nonneg (by omega)]
  unfold largestPower at hgap
  unfold rescale
  rw [Register.wrap_eq (by omega) (by omega), hcast]

theorem value_rescale {d : Decimal} {e : ℤ} (he : e ≤ d.exponent)
    (hgap : d.exponent - e ≤ largestPower) : (d.rescale e).value = d.value := by
  rw [rescale_eq he hgap, value_mul_pow]
  congr 2
  omega

/-- Zeros written out are digits. -/
theorem digits_rescale_le {d : Decimal} {e : ℤ} (he : e ≤ d.exponent)
    (hgap : d.exponent - e ≤ largestPower) :
    (d.rescale e).digits ≤ d.digits + (d.exponent - e).toNat := by
  rw [rescale_eq he hgap, digits_le_iff (by have := d.digits_pos; omega)]
  dsimp only
  rw [abs_mul, abs_of_pos (by positivity : (0 : ℤ) < 10 ^ (d.exponent - e).toNat), pow_add]
  exact mul_lt_mul_of_pos_right d.abs_coefficient_lt (by positivity)

end Decimal

end Reckon
