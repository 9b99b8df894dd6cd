import Reckon.Proofs.Decimal.ExactRounding

/-!
# Rounding: normal form and exactness

`roundTo` is the last step of every operation, and two facts about it serve them all.

* Whatever it returns is `Normal`: a zero whose exponent lies in the range, or a number with at
  most `precision` digits whose leading digit lies in the range (`normal_of_roundTo`).  A normal
  number is returned unchanged (`Normal.roundTo_eq`), and it is moderate again (`Normal.moderate`).
* A number whose value `Fits` is returned with that value (`roundTo_of_fits`).

Both are facts about rounding without bounds, which is what `roundTo` does to a roomy number
(`roundTo_eq_roundExactly`).
-/

namespace Reckon

/-! ## Numbers that can be held -/

/-- A number with at most `precision` significant digits. -/
def Representable (precision : ℕ) (x : ℚ) : Prop :=
  ∃ c e : ℤ, |c| < 10 ^ precision ∧ x = c * 10 ^ e

/-- A number that needs no rounding: zero, or one of at most `precision` significant digits whose
leading digit has an exponent between `-maxExponent` and `maxExponent`. -/
def Fits (precision : ℕ) (maxExponent : ℤ) (x : ℚ) : Prop :=
  x = 0 ∨ Representable precision x ∧ -maxExponent ≤ Int.log 10 |x| ∧ Int.log 10 |x| ≤ maxExponent

/-- A precision and an exponent range that leave the register room: those of any limits, and the
working ones inside a power. -/
structure Manageable (precision : ℕ) (maxExponent : ℤ) : Prop where
  precision_pos : 0 < precision
  precision_le : precision ≤ 2 ^ 30
  maxExponent_pos : 0 < maxExponent
  maxExponent_le : maxExponent ≤ largestMaxExponent

theorem Limits.manageable (limits : Limits) :
    Manageable limits.precision limits.maxExponent := by
  have hle := limits.precision_le
  unfold largestPrecision at hle
  exact ⟨limits.precision_pos, by omega, limits.maxExponent_pos, limits.maxExponent_le⟩

theorem Representable.mono {p p' : ℕ} {x : ℚ} (h : Representable p x) (hle : p ≤ p') :
    Representable p' x := by
  obtain ⟨c, e, hc, hx⟩ := h
  exact ⟨c, e, hc.trans_le (pow_le_pow_right₀ (by norm_num) hle), hx⟩

theorem representable_zero (p : ℕ) : Representable p 0 := ⟨0, 0, by simp, by simp⟩

theorem Fits.representable {p : ℕ} {m : ℤ} {x : ℚ} (h : Fits p m x) : Representable p x := by
  rcases h with rfl | ⟨hx, -⟩
  · exact representable_zero p
  · exact hx

/-- A number with few digits and a high leading one has no digits far down. -/
theorem Representable.exists_multiple {p : ℕ} {x : ℚ} (h : Representable p x) {n : ℤ}
    (hn : (10 : ℚ) ^ n ≤ |x|) : ∃ k : ℤ, x = k * 10 ^ (n + 1 - p) := by
  obtain ⟨c, e, hc, rfl⟩ := h
  have hcast : ((|c| : ℤ) : ℚ) < ((10 ^ p : ℤ) : ℚ) := by exact_mod_cast hc
  have hlt : (10 : ℚ) ^ n < 10 ^ ((p : ℤ) + e) := by
    calc (10 : ℚ) ^ n ≤ |(c : ℚ) * 10 ^ e| := hn
      _ = ((|c| : ℤ) : ℚ) * 10 ^ e := by
          rw [abs_mul, abs_of_pos (ten_zpow_pos e), Int.cast_abs]
      _ < ((10 ^ p : ℤ) : ℚ) * 10 ^ e := mul_lt_mul_of_pos_right hcast (ten_zpow_pos e)
      _ = 10 ^ ((p : ℤ) + e) := by
          rw [ten_zpow_add, zpow_natCast]
          push_cast
          rfl
  -- so the last place is at most `p - 1` below the leading one
  have hexponent : n < p + e := ten_zpow_lt_iff.1 hlt
  exact ⟨c * 10 ^ (e - (n + 1 - p)).toNat, mul_ten_zpow_eq (by omega) c⟩

namespace Decimal

/-- The form that every result has: a zero with its exponent in the range, or at most `precision`
digits with the leading one in the range. -/
def Normal (precision : ℕ) (maxExponent : ℤ) (d : Decimal) : Prop :=
  (d.coefficient = 0 ∧ 1 - maxExponent - precision ≤ d.exponent ∧ d.exponent ≤ maxExponent) ∨
    (d.coefficient ≠ 0 ∧ d.digits ≤ precision ∧ -maxExponent ≤ d.leading ∧ d.leading ≤ maxExponent)

variable {p : ℕ} {m : ℤ} {d r : Decimal}

/-! ## Keeping digits -/

/-- Whatever exponent the register holds, digits are kept as they are without bounds, and the
exponent stops at the upper end. -/
theorem keepDigits_eq_saturate (hp' : p ≤ 2 ^ 30) (hdigits : d.digits ≤ largestPower)
    (he : Register.InRange d.exponent) :
    d.keepDigits p =
      ⟨(d.keepDigitsExactly p).coefficient,
        Register.saturate (d.keepDigitsExactly p).exponent⟩ := by
  have hexcess : Register.wrap ((d.digits : ℤ) - p) = d.digits - p := by
    unfold largestPower at hdigits
    exact Register.wrap_eq (by omega) (by omega)
  unfold keepDigits keepDigitsExactly
  rw [hexcess]
  dsimp only
  rcases Nat.lt_or_ge p d.digits with hlt | hfew
  · have hpow : (pow10 ((d.digits : ℤ) - p) : ℤ) = 10 ^ (d.digits - p) := by
      rw [← Nat.cast_sub hlt.le]
      exact pow10_cast ((Nat.sub_le ..).trans hdigits)
    rw [if_neg (show ¬(d.digits : ℤ) - p ≤ 0 by omega), if_neg (show ¬d.digits ≤ p by omega), hpow,
      digits_mk _ (Register.saturate (d.exponent + (d.digits - p))) (d.exponent + (d.digits - p))]
    split
    · rfl
    · -- an exponent that has stopped at the end stays there
      have hlow := he.1
      congr 1
      dsimp only
      simp only [Register.saturate_eq_max_min, Register.least, Register.greatest] at *
      omega
  · rw [if_pos (show (d.digits : ℤ) - p ≤ 0 by omega), if_pos hfew,
      Register.saturate_of_inRange he]

/-- Where the register has room, digits are kept as they are without bounds. -/
theorem keepDigits_eq_keepDigitsExactly (hp : 0 < p) (hp' : p ≤ 2 ^ 30) (hd : d.Roomy) :
    d.keepDigits p = d.keepDigitsExactly p := by
  obtain ⟨hlow, hhigh⟩ := exponent_keepDigitsExactly_mem hp d
  have hin := hd.inRange
  obtain ⟨hdigits, hge, hle⟩ := hd
  rw [keepDigits_eq_saturate hp' hdigits hin]
  unfold largestPower at hdigits
  rw [Register.saturate_eq (by omega) (by omega)]

/-- The digits that rounding drops from a representable number are zeros. -/
private theorem exists_coefficient_eq (hp : 0 < p) (h : p < d.digits)
    (hvalue : Representable p d.value) : ∃ k : ℤ, d.coefficient = 10 ^ (d.digits - p) * k := by
  have hne := coefficient_ne_zero_of_lt_digits hp h
  obtain ⟨k, hk⟩ := hvalue.exists_multiple (zpow_leading_le hne)
  have hscale : (10 : ℚ) ^ (d.leading + 1 - p) = 10 ^ (d.digits - p) * 10 ^ d.exponent := by
    rw [← zpow_natCast, ← ten_zpow_add]
    congr 1
    unfold leading
    omega
  have hcancel : (d.coefficient : ℚ) = 10 ^ (d.digits - p) * k := by
    apply mul_right_cancel₀ (ten_zpow_pos d.exponent).ne'
    rw [value, hscale] at hk
    linarith
  exact ⟨k, by exact_mod_cast hcancel⟩

/-- A number with few significant digits is not changed by rounding to them. -/
theorem value_keepDigitsExactly_of_representable (hp : 0 < p) (h : Representable p d.value) :
    (d.keepDigitsExactly p).value = d.value := by
  rcases Nat.lt_or_ge p d.digits with hlt | hge
  · obtain ⟨k, hcoefficient⟩ := exists_coefficient_eq hp hlt h
    rw [value_keepDigitsExactly hp hlt, hcoefficient, divHalfEven_mul (by positivity), value,
      hcoefficient, ten_zpow_add, ← Nat.cast_sub hlt.le, zpow_natCast]
    push_cast
    ring
  · rw [keepDigitsExactly_of_digits_le hge]

/-! ## Rounding to a range -/

theorem roundTo_of_isZero (h : Manageable p m) (hzero : d.coefficient = 0) :
    d.roundTo p m = .ok ⟨0, max (1 - m - p) (min d.exponent m)⟩ := by
  obtain ⟨hp, hp', hm, hm'⟩ := h
  unfold largestMaxExponent at hm'
  unfold roundTo
  rw [if_pos (by simpa using hzero), Register.wrap_eq (by omega) (by omega),
    show -m - (p : ℤ) + 1 = 1 - m - p by omega]

private theorem adjustedExponent_keepDigits (hp : 0 < p) (hp' : p ≤ 2 ^ 30)
    (hdigits : d.digits ≤ largestPower) (he : Register.InRange d.exponent) :
    (d.keepDigits p).adjustedExponent = Register.saturate (d.keepDigitsExactly p).leading := by
  have hexponent := (exponent_keepDigitsExactly_mem hp d).1
  have hpos := (d.keepDigitsExactly p).digits_pos
  have hlow := he.1
  have hcount : (⟨(d.keepDigitsExactly p).coefficient,
      Register.saturate (d.keepDigitsExactly p).exponent⟩ : Decimal).digits =
        (d.keepDigitsExactly p).digits := digits_mk ..
  rw [keepDigits_eq_saturate hp' hdigits he, adjustedExponent, hcount, leading]
  simp only [Register.saturate_eq_max_min, Register.least, Register.greatest] at *
  omega

/-- Wherever the exponent stands in the register, rounding is what it is without bounds: a leading
digit that has no place in the register lies above every range. -/
theorem roundTo_eq_roundExactly_of_inRange (h : Manageable p m) (hdigits : d.digits ≤ largestPower)
    (he : Register.InRange d.exponent) : d.roundTo p m = d.roundExactly p m := by
  by_cases hzero : d.coefficient = 0
  · rw [roundTo_of_isZero h hzero, roundExactly, if_pos hzero]
  obtain ⟨hp, hp', hm, hm'⟩ := h
  have hpos := (d.keepDigitsExactly p).digits_pos
  have hexponent := (exponent_keepDigitsExactly_mem hp d).1
  have hlow := he.1
  unfold largestMaxExponent at hm'
  unfold roundTo roundExactly
  rw [if_neg (by simpa using hzero), if_neg hzero, Register.wrap_eq (by omega) (by omega)]
  dsimp only
  rw [adjustedExponent_keepDigits hp hp' hdigits he]
  rcases lt_or_ge m (d.keepDigitsExactly p).leading with habove | hin
  · rw [if_pos habove, if_pos]
    simp only [Register.saturate_eq_max_min, Register.least, Register.greatest] at *
    omega
  · unfold Register.least at hlow
    have hleading : Register.saturate (d.keepDigitsExactly p).leading =
        (d.keepDigitsExactly p).leading := by
      apply Register.saturate_eq <;> unfold leading at * <;> omega
    unfold leading at hin
    rw [hleading, keepDigits_eq_saturate hp' hdigits he, Register.saturate_eq (by omega) (by omega)]

/-- Where the register has room, rounding is what it is without bounds. -/
theorem roundTo_eq_roundExactly (h : Manageable p m) (hd : d.Roomy) :
    d.roundTo p m = d.roundExactly p m :=
  roundTo_eq_roundExactly_of_inRange h hd.digits_le hd.inRange

/-- Whatever rounding returns is in normal form. -/
theorem normal_of_roundExactly (hp : 0 < p) (hm : 0 < m) (hr : d.roundExactly p m = .ok r) :
    r.Normal p m := by
  unfold roundExactly at hr
  split at hr
  · cases hr
    exact Or.inl ⟨rfl, by dsimp only; omega, by dsimp only; omega⟩
  · next hzero =>
    split at hr
    · cases hr
    · next hhigh =>
      split at hr
      · cases hr
        exact Or.inl ⟨rfl, by simp only [Decimal.zero, ofInt]; omega,
          by simp only [Decimal.zero, ofInt]; omega⟩
      · next hlow =>
        cases hr
        exact Or.inr ⟨keepDigitsExactly_ne_zero hp hzero, digits_keepDigitsExactly_le hp d,
          by omega, by omega⟩

theorem normal_of_roundTo (h : Manageable p m) (hd : d.Roomy) (hr : d.roundTo p m = .ok r) :
    r.Normal p m := by
  rw [roundTo_eq_roundExactly h hd] at hr
  exact normal_of_roundExactly h.precision_pos h.maxExponent_pos hr

/-- A number that fits is returned with its value. -/
theorem roundTo_of_fits (h : Manageable p m) (hd : d.Roomy) (hfits : Fits p m d.value) :
    ∃ r, d.roundTo p m = .ok r ∧ r.value = d.value := by
  rw [roundTo_eq_roundExactly h hd, roundExactly]
  by_cases hzero : d.coefficient = 0
  · refine ⟨_, if_pos hzero, ?_⟩
    rw [value_eq_zero_iff.2 rfl, value_eq_zero_iff.2 hzero]
  · obtain hvalue | ⟨hrepresentable, hlow, hhigh⟩ := hfits
    · exact absurd (value_eq_zero_iff.1 hvalue) hzero
    · have hkept := value_keepDigitsExactly_of_representable h.precision_pos hrepresentable
      have hleading : (d.keepDigitsExactly p).leading = Int.log 10 |d.value| := by
        rw [← hkept, log_abs_value (keepDigitsExactly_ne_zero h.precision_pos hzero)]
      refine ⟨d.keepDigitsExactly p, ?_, hkept⟩
      rw [if_neg hzero, if_neg (by omega), if_neg (by omega)]

/-- The result of rounding a decimal that stands for `x`, unless `x` has too many digits to tell. -/
def Rounds (p : ℕ) (m : ℤ) (x : ℚ) (result : Except ArithmeticFault Decimal) : Prop :=
  ∃ d : Decimal, d.Roomy ∧ (Representable p x → d.value = x) ∧ result = d.roundTo p m

theorem Rounds.normal {x : ℚ} {result : Except ArithmeticFault Decimal} (h : Manageable p m)
    (hresult : Rounds p m x result) (hr : result = .ok r) : r.Normal p m := by
  obtain ⟨d, hd, -, rfl⟩ := hresult
  exact normal_of_roundTo h hd hr

/-- A result that fits is exact. -/
theorem Rounds.of_fits {x : ℚ} {result : Except ArithmeticFault Decimal} (h : Manageable p m)
    (hresult : Rounds p m x result) (hx : Fits p m x) : ∃ r, result = .ok r ∧ r.value = x := by
  obtain ⟨d, hd, hvalue, rfl⟩ := hresult
  have hexact := hvalue hx.representable
  rw [← hexact] at hx ⊢
  exact roundTo_of_fits h hd hx

theorem Roomy.rounds_round {limits : Limits} (hd : d.Roomy) :
    Rounds limits.precision limits.maxExponent d.value (d.round limits) :=
  ⟨d, hd, fun _ => rfl, rfl⟩

/-! ## Numbers in normal form -/

theorem Normal.moderate (h : Manageable p m) (hd : d.Normal p m) : d.Moderate := by
  obtain ⟨hp, hp', hm, hm'⟩ := h
  unfold largestMaxExponent at hm'
  rcases hd with ⟨hzero, hlow, hhigh⟩ | ⟨-, hdigits, hlow, hhigh⟩
  · have hdigits := digits_eq_one_of_zero hzero
    exact ⟨by omega, by omega, by omega⟩
  · have hpos := d.digits_pos
    unfold leading at hlow hhigh
    exact ⟨by omega, by omega, by omega⟩

/-- Rounding leaves a normal number as it is. -/
theorem Normal.roundTo_eq (h : Manageable p m) (hd : d.Normal p m) : d.roundTo p m = .ok d := by
  have hroomy := (hd.moderate h).roomy
  rcases hd with ⟨hzero, hlow, hhigh⟩ | ⟨hne, hdigits, hlow, hhigh⟩
  · rw [roundTo_of_isZero h hzero, min_eq_left hhigh, max_eq_right hlow, ← hzero]
  · rw [roundTo_eq_roundExactly h hroomy, roundExactly, if_neg hne,
      keepDigitsExactly_of_digits_le hdigits, if_neg (by omega), if_neg (by omega)]

/-- A number in normal form needs no rounding. -/
theorem Normal.fits (h : Manageable p m) (hd : d.Normal p m) : Fits p m d.value := by
  rcases hd with ⟨hzero, -, -⟩ | ⟨hne, hdigits, hlow, hhigh⟩
  · exact Or.inl (value_eq_zero_iff.2 hzero)
  · right
    rw [log_abs_value hne]
    refine ⟨⟨d.coefficient, d.exponent, ?_, rfl⟩, hlow, hhigh⟩
    exact (digits_le_iff h.precision_pos).1 hdigits

theorem normal_one (h : Manageable p m) : Decimal.one.Normal p m := by
  have hm := h.maxExponent_pos
  have hp := h.precision_pos
  have hdigits : Decimal.one.digits = 1 := by decide
  refine Or.inr ⟨by decide, by omega, ?_, ?_⟩ <;>
    rw [leading, hdigits] <;> simp only [Decimal.one, ofInt] <;> omega

theorem normal_zero (h : Manageable p m) : Decimal.zero.Normal p m := by
  have hm := h.maxExponent_pos
  have hp := h.precision_pos
  exact Or.inl ⟨rfl, by simp only [Decimal.zero, ofInt]; omega,
    by simp only [Decimal.zero, ofInt]; omega⟩

theorem Normal.neg (h : d.Normal p m) : (-d).Normal p m := by
  unfold Normal leading at *
  simpa only [neg_coefficient, neg_exponent, digits_neg, neg_eq_zero, ne_eq] using h

end Decimal

end Reckon
