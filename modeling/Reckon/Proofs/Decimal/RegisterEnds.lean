import Reckon.Decimal.Product
import Reckon.Proofs.Decimal.CorrectRounding

/-!
# Rounding at the ends of the register

A decimal may have any exponent that the register holds, and near the ends of the register the
guarded sums of rounding and of multiplication stop short of the exact ones.  Nothing of this is
ever seen: the limits end so far inside the register that an exponent which has stopped belongs to
a number outside the range, above or below it as the exact one is.

`RoundedHalfEven` is the law of rounding in full, with exponents of any size: which numbers have no
result, which become zero, and with how many digits the others are written.  Numbers with any
exponent are rounded by it, and so are the exact products of two of them, whose exponents need not
have a place in the register (`round_mul_roundedHalfEven`).
-/

namespace Reckon.Decimal

variable {p : ℕ} {m : ℤ} {a b d : Decimal} {result : Except ArithmeticFault Decimal}

/-- A decimal of fewer than `2 ^ 31` digits with any exponent that the register holds. -/
structure Storable (d : Decimal) : Prop where
  digits_lt : d.digits < 2 ^ 31
  inRange : Register.InRange d.exponent

theorem Moderate.storable (hd : d.Moderate) : d.Storable := ⟨hd.digits_lt, hd.roomy.inRange⟩

/-! ## The law of rounding -/

/-- The result is what is left of `d` when it is rounded half to even to `p` digits and held to
exponents between `-m` and `m`. -/
structure RoundedHalfEven (p : ℕ) (m : ℤ) (d : Decimal) (result : Except ArithmeticFault Decimal) :
    Prop where
  /-- A zero keeps its exponent as far as the range allows. -/
  of_zero : d.coefficient = 0 → result = .ok ⟨0, max (1 - m - p) (min d.exponent m)⟩
  /-- Above the range there is no result. -/
  eq_overflow_iff : d.coefficient ≠ 0 →
    (result = .error .overflow ↔ m < Int.log 10 |nearest p d.value|)
  /-- Below the range the result is the zero with exponent zero. -/
  eq_zero_iff : d.coefficient ≠ 0 → (result = .ok .zero ↔ Int.log 10 |nearest p d.value| < -m)
  /-- In between it is the rounded number, with the exponent that it had or, where there were more
  digits, with exactly `p` of them. -/
  exists_of_mem : d.coefficient ≠ 0 → -m ≤ Int.log 10 |nearest p d.value| →
    Int.log 10 |nearest p d.value| ≤ m → ∃ r, result = .ok r ∧ r.value = nearest p d.value ∧
      (d.digits ≤ p → r.exponent = d.exponent) ∧ (p < d.digits → r.digits = p)

theorem roundedHalfEven_roundExactly (hp : 0 < p) (hm : 0 < m) (d : Decimal) :
    RoundedHalfEven p m d (d.roundExactly p m) := by
  have hlog : d.coefficient ≠ 0 →
      Int.log 10 |nearest p d.value| = (d.keepDigitsExactly p).leading := fun hne => by
    rw [← value_keepDigitsExactly_eq_nearest hp, log_abs_value (keepDigitsExactly_ne_zero hp hne)]
  refine ⟨fun hzero => if_pos hzero, fun hne => ?_, fun hne => ?_, fun hne hlow hhigh => ?_⟩
  · rw [hlog hne, roundExactly, if_neg hne]
    split
    · next habove => exact iff_of_true rfl habove
    · next hin => split <;> exact iff_of_false (by simp) hin
  · have hkept := keepDigitsExactly_ne_zero hp hne
    rw [hlog hne, roundExactly, if_neg hne]
    split
    · next habove => exact iff_of_false (by simp) (by omega)
    · split
      · next hbelow => exact iff_of_true rfl hbelow
      · next hin =>
        refine iff_of_false (fun hzero => hkept ?_) hin
        rw [Except.ok.inj hzero]
        rfl
  · rw [hlog hne] at hlow hhigh
    refine ⟨d.keepDigitsExactly p, ?_, value_keepDigitsExactly_eq_nearest hp d, fun hfew => ?_,
      digits_keepDigitsExactly hp⟩
    · rw [roundExactly, if_neg hne, if_neg (by omega), if_neg (by omega)]
    · rw [keepDigitsExactly_of_digits_le hfew]

/-! ## Exponents that have stopped -/

/-- Rounding leaves the leading digit above the last one, and not far above the digits that there
were. -/
private theorem leading_keepDigitsExactly_mem (hp : 0 < p) (d : Decimal) :
    d.exponent ≤ (d.keepDigitsExactly p).leading ∧
      (d.keepDigitsExactly p).leading < d.exponent + d.digits + p := by
  have hcount := digits_keepDigitsExactly_le hp d
  have hpos := (d.keepDigitsExactly p).digits_pos
  obtain ⟨hlow, hhigh⟩ := exponent_keepDigitsExactly_mem hp d
  unfold leading
  omega

/-- An exponent that has stopped at an end of the register is rounded as the one that it stands
for: both lie outside the range on the same side. -/
theorem roundExactly_saturate (h : Manageable p m) (hdigits : d.digits ≤ largestPower) :
    (⟨d.coefficient, Register.saturate d.exponent⟩ : Decimal).roundExactly p m =
      d.roundExactly p m := by
  have heq := Register.saturate_eq_max_min d.exponent
  have hcount := digits_mk d.coefficient (Register.saturate d.exponent) d.exponent
  obtain ⟨hp, hp', hm, hm'⟩ := h
  obtain ⟨hlow, hhigh⟩ := leading_keepDigitsExactly_mem hp d
  obtain ⟨hlow', hhigh'⟩ := leading_keepDigitsExactly_mem hp
    ⟨d.coefficient, Register.saturate d.exponent⟩
  change _ = d.digits at hcount
  rw [hcount] at hhigh'
  unfold largestMaxExponent at hm'
  unfold largestPower at hdigits
  unfold Register.least Register.greatest at heq
  dsimp only at hlow' hhigh'
  by_cases hzero : d.coefficient = 0
  · rw [roundExactly, roundExactly, if_pos hzero, if_pos hzero]
    congr 2
    dsimp only
    omega
  rcases lt_or_ge Register.greatest d.exponent with habove | hbelow
  · unfold Register.greatest at habove
    rw [roundExactly, roundExactly, if_neg hzero, if_neg hzero, if_pos (by omega),
      if_pos (by omega)]
  · rcases lt_or_ge d.exponent Register.least with hbeneath | hin
    · unfold Register.least at hbeneath
      rw [roundExactly, roundExactly, if_neg hzero, if_neg hzero, if_neg (by omega),
        if_pos (by omega), if_neg (by omega), if_pos (by omega)]
    · rw [Register.saturate_of_inRange ⟨hin, hbelow⟩]

theorem Storable.round_eq_roundExactly (limits : Limits) (hd : d.Storable) :
    d.round limits = d.roundExactly limits.precision limits.maxExponent := by
  have hdigits := hd.digits_lt
  exact roundTo_eq_roundExactly_of_inRange limits.manageable (by unfold largestPower; omega)
    hd.inRange

theorem Storable.mul_eq_roundExactly (limits : Limits) (ha : a.Storable) (hb : b.Storable) :
    mul limits a b =
      (⟨a.coefficient * b.coefficient, a.exponent + b.exponent⟩ : Decimal).roundExactly
        limits.precision limits.maxExponent := by
  have hadigits := ha.digits_lt
  have hbdigits := hb.digits_lt
  have hproduct := digits_mul_le a b (a.exponent + b.exponent)
  have hdigits : (⟨a.coefficient * b.coefficient, a.exponent + b.exponent⟩ : Decimal).digits ≤
      largestPower := by
    unfold largestPower
    omega
  rw [← roundExactly_saturate limits.manageable hdigits]
  exact roundTo_eq_roundExactly_of_inRange limits.manageable hdigits (Register.inRange_saturate _)

/-- Rounding and multiplication obey the law of rounding whatever exponents their operands have: a
number is rounded as it is, and a product as the exact one, the sum of the exponents not being
bounded. -/
theorem round_mul_roundedHalfEven (limits : Limits) (ha : a.Storable) (hb : b.Storable) :
    RoundedHalfEven limits.precision limits.maxExponent a (a.round limits) ∧
      RoundedHalfEven limits.precision limits.maxExponent
        ⟨a.coefficient * b.coefficient, a.exponent + b.exponent⟩ (mul limits a b) := by
  have hp := limits.precision_pos
  have hm := limits.maxExponent_pos
  rw [ha.round_eq_roundExactly, ha.mul_eq_roundExactly limits hb]
  exact ⟨roundedHalfEven_roundExactly hp hm a, roundedHalfEven_roundExactly hp hm _⟩

/-- The product of two numbers at the upper end has an exponent that the register does not hold;
it lies above the range, and so does either factor. -/
theorem greatest_exponents_roundedHalfEven :
    (⟨15, Register.greatest⟩ : Decimal).Storable ∧ (⟨25, Register.greatest⟩ : Decimal).Storable ∧
      ¬Register.InRange (Register.greatest + Register.greatest) ∧
      RoundedHalfEven 28 999999 ⟨15, Register.greatest⟩
        ((⟨15, Register.greatest⟩ : Decimal).round .default) ∧
      RoundedHalfEven 28 999999 ⟨15 * 25, Register.greatest + Register.greatest⟩
        (mul .default ⟨15, Register.greatest⟩ ⟨25, Register.greatest⟩) := by
  have hfirst : (⟨15, Register.greatest⟩ : Decimal).Storable := ⟨by decide, by decide⟩
  have hsecond : (⟨25, Register.greatest⟩ : Decimal).Storable := ⟨by decide, by decide⟩
  exact ⟨hfirst, hsecond, by decide, round_mul_roundedHalfEven .default hfirst hsecond⟩

example : mul .default ⟨15, Register.greatest⟩ ⟨25, Register.greatest⟩ = .error .overflow := by
  decide

end Reckon.Decimal
