import Reckon.Decimal.Rounding
import Reckon.Proofs.Decimal.Value

/-!
# Rounding without bounds

`roundTo` works with exponents that a register holds and with powers of ten up to a cap.
`roundExactly` is the same rounding without either: its powers of ten are of any size, and so are
its exponents.  On numbers that leave the register room the two agree; this one says what rounding
means for numbers that are too long to be written out.

`keepDigitsExactly_cases` tells what is left of the coefficient, and where a carry into a new digit
ends up.  A number with more digits than are kept becomes one with exactly as many, so only its
value decides which (`eq_of_value_eq`).
-/

namespace Reckon.Decimal

variable {p : ℕ} {m : ℤ} {d d' : Decimal}

/-- The number with at most `p` significant digits.  Rounding up may carry into a new digit, which
leaves a zero at the end to be dropped. -/
def keepDigitsExactly (p : ℕ) (d : Decimal) : Decimal :=
  if d.digits ≤ p then d
  else
    let rounded : Decimal :=
      ⟨divHalfEven d.coefficient (10 ^ (d.digits - p)), d.exponent + (d.digits - p)⟩
    if rounded.digits ≤ p then rounded else ⟨rounded.coefficient.tdiv 10, rounded.exponent + 1⟩

/-- The number made to fit `p` digits and exponents up to `m`.  A zero keeps its exponent as far as
the range allows. -/
def roundExactly (p : ℕ) (m : ℤ) (d : Decimal) : Except ArithmeticFault Decimal :=
  if d.coefficient = 0 then .ok ⟨0, max (1 - m - p) (min d.exponent m)⟩
  else if m < (d.keepDigitsExactly p).leading then .error .overflow
  else if (d.keepDigitsExactly p).leading < -m then .ok .zero
  else .ok (d.keepDigitsExactly p)

theorem keepDigitsExactly_of_digits_le (h : d.digits ≤ p) : d.keepDigitsExactly p = d := if_pos h

/-- The rounded coefficient keeps its leading digit where it was, or carries into the next one. -/
private theorem abs_rounded_mem (hp : 0 < p) (h : p < d.digits) :
    10 ^ (p - 1) ≤ |divHalfEven d.coefficient (10 ^ (d.digits - p))| ∧
      |divHalfEven d.coefficient (10 ^ (d.digits - p))| ≤ 10 ^ p := by
  have hunit : (0 : ℤ) < 10 ^ (d.digits - p) := by positivity
  constructor
  · apply le_abs_divHalfEven hunit
    rw [← pow_add, show d.digits - p + (p - 1) = d.digits - 1 by omega]
    exact pow_le_abs_coefficient (coefficient_ne_zero_of_lt_digits hp h)
  · apply abs_divHalfEven_le hunit
    rw [← pow_add, Nat.sub_add_cancel h.le]
    exact d.abs_coefficient_lt.le

/-- Rounding drops the excess digits; where that carries into a new digit, the zero at the end goes
too. -/
theorem keepDigitsExactly_cases (hp : 0 < p) (h : p < d.digits) :
    ∃ q : ℤ, q = divHalfEven d.coefficient (10 ^ (d.digits - p)) ∧ 10 ^ (p - 1) ≤ |q| ∧
      ((|q| < 10 ^ p ∧ d.keepDigitsExactly p = ⟨q, d.exponent + (d.digits - p)⟩) ∨
        ∃ q', q = q' * 10 ∧ |q'| = 10 ^ (p - 1) ∧
          d.keepDigitsExactly p = ⟨q', d.exponent + (d.digits - p) + 1⟩) := by
  obtain ⟨hlow, hhigh⟩ := abs_rounded_mem hp h
  unfold keepDigitsExactly
  rw [if_neg (by omega)]
  generalize divHalfEven d.coefficient (10 ^ (d.digits - p)) = q at hlow hhigh
  refine ⟨q, rfl, hlow, ?_⟩
  rcases lt_or_eq_of_le hhigh with hlt | heq
  · exact Or.inl ⟨hlt, if_pos ((digits_le_iff hp).2 hlt)⟩
  · -- a coefficient that has grown to `10 ^ p` ends in zeros only, so one can be taken off
    right
    have hdvd : (10 : ℤ) ∣ q := by
      rw [← dvd_abs, heq]
      exact dvd_pow_self 10 hp.ne'
    obtain ⟨q', rfl⟩ := hdvd
    refine ⟨q', mul_comm _ _, ?_, ?_⟩
    · rw [abs_mul, abs_of_pos (by norm_num : (0 : ℤ) < 10)] at heq
      have hsplit : (10 : ℤ) ^ p = 10 * 10 ^ (p - 1) := by
        rw [← pow_succ', Nat.sub_add_cancel hp]
      omega
    · dsimp only
      rw [if_neg (by rw [digits_le_iff hp]; exact not_lt_of_ge heq.ge),
        Int.mul_tdiv_cancel_left _ (by norm_num)]

/-- The value of the rounded number is the rounded coefficient, scaled by what was dropped. -/
theorem value_keepDigitsExactly (hp : 0 < p) (h : p < d.digits) :
    (d.keepDigitsExactly p).value =
      divHalfEven d.coefficient (10 ^ (d.digits - p)) * 10 ^ (d.exponent + (d.digits - p)) := by
  obtain ⟨q, hq, -, ⟨-, hkeep⟩ | ⟨q', hq', -, hkeep⟩⟩ := keepDigitsExactly_cases hp h
  · rw [← hq, hkeep]
    rfl
  · rw [← hq, hkeep, hq', value, ten_zpow_add, zpow_one]
    push_cast
    ring

theorem digits_keepDigitsExactly (hp : 0 < p) (h : p < d.digits) :
    (d.keepDigitsExactly p).digits = p := by
  obtain ⟨q, -, hlow, ⟨hlt, hkeep⟩ | ⟨q', -, hq', hkeep⟩⟩ := keepDigitsExactly_cases hp h
  · rw [hkeep, digits_eq (k := p - 1) hlow (by rwa [Nat.sub_add_cancel hp])]
    omega
  · rw [hkeep, digits_eq (k := p - 1) hq'.ge
      (by rw [hq']; exact pow_lt_pow_right₀ (by norm_num) (by omega))]
    omega

theorem digits_keepDigitsExactly_le (hp : 0 < p) (d : Decimal) :
    (d.keepDigitsExactly p).digits ≤ p := by
  rcases Nat.lt_or_ge p d.digits with hlt | hge
  · exact (digits_keepDigitsExactly hp hlt).le
  · rwa [keepDigitsExactly_of_digits_le hge]

theorem keepDigitsExactly_ne_zero (hp : 0 < p) (hne : d.coefficient ≠ 0) :
    (d.keepDigitsExactly p).coefficient ≠ 0 := by
  rcases Nat.lt_or_ge p d.digits with hlt | hge
  · have hpos : (0 : ℤ) < 10 ^ (p - 1) := by positivity
    obtain ⟨q, -, hlow, ⟨-, hkeep⟩ | ⟨q', -, hq', hkeep⟩⟩ := keepDigitsExactly_cases hp hlt
    · rw [hkeep]
      exact abs_pos.1 (hpos.trans_le hlow)
    · rw [hkeep]
      exact abs_pos.1 (hpos.trans_eq hq'.symm)
  · rwa [keepDigitsExactly_of_digits_le hge]

/-- Rounding moves the exponent up, at most past the digits that there are. -/
theorem exponent_keepDigitsExactly_mem (hp : 0 < p) (d : Decimal) :
    d.exponent ≤ (d.keepDigitsExactly p).exponent ∧
      (d.keepDigitsExactly p).exponent ≤ d.exponent + d.digits := by
  rcases Nat.lt_or_ge p d.digits with hlt | hge
  · obtain ⟨q, -, -, ⟨-, hkeep⟩ | ⟨q', -, -, hkeep⟩⟩ := keepDigitsExactly_cases hp hlt <;>
      rw [hkeep] <;> constructor <;> dsimp only <;> omega
  · rw [keepDigitsExactly_of_digits_le hge]
    omega

/-- Two ways to write a number with equally many digits are the same. -/
theorem eq_of_value_eq (hne : d.coefficient ≠ 0) (hvalue : d.value = d'.value)
    (hdigits : d.digits = d'.digits) : d = d' := by
  have hleading := leading_eq_of_value_eq hne hvalue
  have hexponent : d.exponent = d'.exponent := by
    unfold leading at hleading
    omega
  have hcoefficient : d.coefficient = d'.coefficient := by
    rw [value, value, hexponent] at hvalue
    exact_mod_cast mul_right_cancel₀ (ten_zpow_pos d'.exponent).ne' hvalue
  obtain ⟨c, e⟩ := d
  obtain ⟨c', e'⟩ := d'
  dsimp only at hcoefficient hexponent
  rw [hcoefficient, hexponent]

end Reckon.Decimal
