import Reckon.Decimal.Extremes
import Reckon.Proofs.Decimal.Quotient
import Reckon.Proofs.Decimal.Remainder

/-!
# Registers that are never filled

A register is `Faithful` when it holds the integers strictly between the ends of sixty-four bits;
what becomes of any other integer, the ends included, is left open.  So if a computation comes out
the same under every faithful register, it has not depended on an integer that lies outside.

Here this is shown of the operations on moderate numbers, function by function: each gives under a
faithful register what it gives under the sixty-four-bit one.  Powers and factorials are in
`Reckon.Proofs.Decimal.FaithfulPower`.

## Strategy

A function that puts integers into the register itself is opened, and the bounds of its operands
bound what goes in (`wrap_eq`, `saturate_eq`).  Any other is rewritten by the lemmas of the
functions that it calls.  The exponents of moderate numbers have magnitude at most `2 ^ 60`, and no
function puts the sum of more than four such exponents and counts of digits into the register.
-/

namespace Reckon

/-! ## Faithful registers -/

namespace Register

/-- The register holds every integer strictly between the ends of sixty-four bits. -/
structure Faithful (register : Register) : Prop where
  wrap_of_between : ∀ {n : ℤ}, least < n → n < greatest → register.wrap n = n
  saturate_of_between : ∀ {n : ℤ}, least < n → n < greatest → register.saturate n = n

theorem faithful_word64 : word64.Faithful where
  wrap_of_between hleast hgreatest := wrap_of_inRange ⟨hleast.le, hgreatest.le⟩
  saturate_of_between hleast hgreatest := saturate_of_inRange ⟨hleast.le, hgreatest.le⟩

theorem faithful_unbounded : unbounded.Faithful where
  wrap_of_between _ _ := rfl
  saturate_of_between _ _ := rfl

/-- A register that is left with a zero where an integer does not lie strictly between the ends. -/
@[reducible] def forgetful : Register where
  wrap n := if least < n ∧ n < greatest then n else 0
  saturate n := if least < n ∧ n < greatest then n else 0

theorem faithful_forgetful : forgetful.Faithful where
  wrap_of_between hleast hgreatest := if_pos ⟨hleast, hgreatest⟩
  saturate_of_between hleast hgreatest := if_pos ⟨hleast, hgreatest⟩

variable {register : Register} {n : ℤ}

theorem Faithful.wrap_eq (h : register.Faithful) (hleast : -2 ^ 63 < n)
    (hgreatest : n < 2 ^ 63 - 1) : register.wrap n = n :=
  h.wrap_of_between (by unfold least; omega) (by unfold greatest; omega)

theorem Faithful.saturate_eq (h : register.Faithful) (hleast : -2 ^ 63 < n)
    (hgreatest : n < 2 ^ 63 - 1) : register.saturate n = n :=
  h.saturate_of_between (by unfold least; omega) (by unfold greatest; omega)

theorem Faithful.wrap_eq_word64 (h : register.Faithful) (hleast : -2 ^ 63 < n)
    (hgreatest : n < 2 ^ 63 - 1) : register.wrap n = word64.wrap n := by
  rw [h.wrap_eq hleast hgreatest, faithful_word64.wrap_eq hleast hgreatest]

theorem Faithful.saturate_eq_word64 (h : register.Faithful) (hleast : -2 ^ 63 < n)
    (hgreatest : n < 2 ^ 63 - 1) : register.saturate n = word64.saturate n := by
  rw [h.saturate_eq hleast hgreatest, faithful_word64.saturate_eq hleast hgreatest]

end Register

namespace Decimal

open Register

variable {register : Register} {p : ℕ} {m : ℤ} {a b d : Decimal}

/-! ## A single decimal -/

theorem adjustedExponent_eq_of_faithful (h : register.Faithful) (hlow : -2 ^ 63 < d.exponent)
    (hhigh : d.leading < 2 ^ 63 - 1) :
    @adjustedExponent register d = @adjustedExponent word64 d := by
  have hpos := d.digits_pos
  unfold leading at hhigh
  unfold adjustedExponent
  rw [h.saturate_eq_word64 (by omega) (by omega)]

theorem Roomy.adjustedExponent_eq (hd : d.Roomy) (h : register.Faithful) :
    @adjustedExponent register d = @adjustedExponent word64 d := by
  obtain ⟨hdigits, hlow, hhigh⟩ := hd
  unfold largestPower at hdigits
  apply adjustedExponent_eq_of_faithful h (by omega)
  unfold leading
  omega

theorem Roomy.isInteger_eq (hd : d.Roomy) (h : register.Faithful) :
    @isInteger register d = @isInteger word64 d := by
  obtain ⟨-, hlow, hhigh⟩ := hd
  unfold isInteger
  rw [h.wrap_eq_word64 (by omega) (by omega)]

theorem Roomy.toInteger?_eq (hd : d.Roomy) (h : register.Faithful) :
    @toInteger? register d = @toInteger? word64 d := by
  have hinteger := hd.isInteger_eq h
  obtain ⟨-, hlow, hhigh⟩ := hd
  unfold toInteger?
  rw [hinteger, h.wrap_eq_word64 (by omega) (by omega)]

theorem Roomy.toCount?_eq (hd : d.Roomy) (h : register.Faithful) :
    @toCount? register d = @toCount? word64 d := by
  unfold toCount?
  rw [hd.adjustedExponent_eq h, hd.toInteger?_eq h]

/-! ## Rounding -/

theorem Roomy.keepDigits_eq (hd : d.Roomy) (h : register.Faithful) (hp : p ≤ 2 ^ 30) :
    @keepDigits register p d = @keepDigits word64 p d := by
  obtain ⟨hdigits, hlow, hhigh⟩ := hd
  unfold largestPower at hdigits
  unfold keepDigits
  rw [h.wrap_eq (by omega) (by omega), Register.wrap_eq (by omega) (by omega)]
  dsimp only
  rw [h.saturate_eq (n := d.exponent + (d.digits - p)) (by omega) (by omega),
    Register.saturate_eq (n := d.exponent + (d.digits - p)) (by omega) (by omega),
    h.saturate_eq (by omega) (by omega), Register.saturate_eq (by omega) (by omega)]

theorem Roomy.roundTo_eq (hd : d.Roomy) (h : register.Faithful) (hwork : Manageable p m) :
    @roundTo register p m d = @roundTo word64 p m d := by
  have hkept := hd.keepDigits_eq h hwork.precision_le
  have hexactly := keepDigits_eq_keepDigitsExactly hwork.precision_pos hwork.precision_le hd
  have hleading : @adjustedExponent register (@keepDigits word64 p d) =
      @adjustedExponent word64 (@keepDigits word64 p d) := by
    have hdigits := digits_keepDigitsExactly_le hwork.precision_pos d
    have hexponent := exponent_keepDigitsExactly_mem hwork.precision_pos d
    have hp := hwork.precision_le
    obtain ⟨hcount, hlow, hhigh⟩ := hd
    unfold largestPower at hcount
    rw [hexactly]
    apply adjustedExponent_eq_of_faithful h (by omega)
    unfold leading
    omega
  obtain ⟨hp, hp', hm, hm'⟩ := hwork
  unfold largestMaxExponent at hm'
  unfold roundTo
  rw [hkept, h.wrap_eq_word64 (n := -m - p + 1) (by omega) (by omega),
    h.wrap_eq_word64 (by omega) (by omega)]
  dsimp only
  rw [hleading]

theorem Roomy.round_eq (hd : d.Roomy) (h : register.Faithful) (limits : Limits) :
    @round register limits d = @round word64 limits d :=
  hd.roundTo_eq h limits.manageable

/-! ## Order -/

theorem rescale_eq_of_faithful {e : ℤ} (h : register.Faithful) (hlow : -2 ^ 63 < d.exponent - e)
    (hhigh : d.exponent - e < 2 ^ 63 - 1) : @rescale register e d = @rescale word64 e d := by
  unfold rescale
  rw [h.wrap_eq_word64 hlow hhigh]

theorem Moderate.compareMagnitude_eq (ha : a.Moderate) (h : register.Faithful) (hb : b.Moderate) :
    @compareMagnitude register a b = @compareMagnitude word64 a b := by
  have haleading := ha.roomy.adjustedExponent_eq h
  have hbleading := hb.roomy.adjustedExponent_eq h
  obtain ⟨-, halow, hahigh⟩ := ha.abs
  obtain ⟨-, hblow, hbhigh⟩ := hb.abs
  have haexponent : a.abs.exponent = a.exponent := rfl
  have hbexponent : b.abs.exponent = b.exponent := rfl
  unfold compareMagnitude
  rw [haleading, hbleading]
  dsimp only
  rw [rescale_eq_of_faithful (d := a.abs) h (by omega) (by omega),
    rescale_eq_of_faithful (d := b.abs) h (by omega) (by omega)]

theorem Moderate.compare_eq_of_faithful (ha : a.Moderate) (h : register.Faithful)
    (hb : b.Moderate) : @Decimal.compare register a b = @Decimal.compare word64 a b := by
  unfold Decimal.compare
  rw [ha.compareMagnitude_eq h hb]

theorem Moderate.larger_eq (ha : a.Moderate) (h : register.Faithful) (hb : b.Moderate)
    (limits : Limits) : @larger register limits a b = @larger word64 limits a b := by
  unfold larger
  rw [hb.compare_eq_of_faithful h ha, hb.roomy.round_eq h, ha.roomy.round_eq h]

theorem Moderate.smaller_eq (ha : a.Moderate) (h : register.Faithful) (hb : b.Moderate)
    (limits : Limits) : @smaller register limits a b = @smaller word64 limits a b := by
  unfold smaller
  rw [hb.compare_eq_of_faithful h ha, hb.roomy.round_eq h, ha.roomy.round_eq h]

/-! ## Sums -/

theorem Moderate.addZero_eq (ha : a.Moderate) (h : register.Faithful) (hb : b.Moderate)
    (hp : p ≤ 2 ^ 30 + 2) : @addZero register p a b = @addZero word64 p a b := by
  obtain ⟨-, halow, hahigh⟩ := ha
  obtain ⟨-, hblow, hbhigh⟩ := hb
  unfold addZero
  rw [h.wrap_eq (by omega) (by omega), Register.wrap_eq (by omega) (by omega)]
  dsimp only
  split
  · exact rescale_eq_of_faithful h (by omega) (by omega)
  · exact rescale_eq_of_faithful h (by omega) (by omega)

theorem Moderate.visibleFloor_eq_of_faithful (ha : a.Moderate) (h : register.Faithful)
    (hp : p ≤ 2 ^ 30 + 2) : @visibleFloor register p a = @visibleFloor word64 p a := by
  rw [visibleFloor_eq hp ha]
  obtain ⟨hdigits, hlow, hhigh⟩ := ha
  unfold visibleFloor
  rw [h.wrap_eq (n := (a.digits : ℤ) - p - 2) (by omega) (by omega),
    h.wrap_eq (by omega) (by omega)]

theorem Moderate.standIn_eq_of_faithful (hb : b.Moderate) (h : register.Faithful) (floor : ℤ) :
    @standIn register floor b = @standIn word64 floor b := by
  unfold standIn
  rw [hb.roomy.adjustedExponent_eq h]

theorem addAligned_eq_of_faithful (h : register.Faithful) (hlow : -2 ^ 62 < a.exponent - b.exponent)
    (hhigh : a.exponent - b.exponent < 2 ^ 62) :
    @addAligned register a b = @addAligned word64 a b := by
  unfold addAligned
  dsimp only
  rw [rescale_eq_of_faithful (d := a) h (by omega) (by omega),
    rescale_eq_of_faithful (d := b) h (by omega) (by omega)]

private theorem addAligned_standIn_eq (ha : a.Moderate) (h : register.Faithful) (hb : b.Moderate)
    (hp : p ≤ 2 ^ 30 + 2) :
    @addAligned register a (@standIn register (@visibleFloor register p a) b) =
      @addAligned word64 a (@standIn word64 (@visibleFloor word64 p a) b) := by
  have hfloor := visibleFloor_eq hp ha
  rw [ha.visibleFloor_eq_of_faithful h hp, hb.standIn_eq_of_faithful h, standIn_eq hb]
  obtain ⟨hadigits, halow, hahigh⟩ := ha
  obtain ⟨-, hblow, hbhigh⟩ := hb
  split
  · apply addAligned_eq_of_faithful h <;> dsimp only <;> omega
  · exact addAligned_eq_of_faithful h (by omega) (by omega)

theorem Moderate.addUnrounded_eq (ha : a.Moderate) (h : register.Faithful) (hb : b.Moderate)
    (hp : p ≤ 2 ^ 30 + 2) : @addUnrounded register p a b = @addUnrounded word64 p a b := by
  unfold addUnrounded
  rw [ha.addZero_eq h hb hp, hb.addZero_eq h ha hp]
  by_cases he : b.exponent ≤ a.exponent
  · simp only [if_pos he, addAligned_standIn_eq ha h hb hp]
  · simp only [if_neg he, addAligned_standIn_eq hb h ha hp]

theorem Moderate.add_eq (ha : a.Moderate) (h : register.Faithful) (hb : b.Moderate)
    (limits : Limits) : @add register limits a b = @add word64 limits a b := by
  have hp : limits.precision ≤ 2 ^ 30 + 2 := by
    have := limits.manageable.precision_le
    omega
  unfold add
  rw [ha.addUnrounded_eq h hb hp, (roomy_addUnrounded hp ha hb).round_eq h]

theorem Moderate.sub_eq (ha : a.Moderate) (h : register.Faithful) (hb : b.Moderate)
    (limits : Limits) : @sub register limits a b = @sub word64 limits a b :=
  ha.add_eq h hb.neg limits

/-! ## Products, quotients and remainders -/

theorem Moderate.mulTo_eq (ha : a.Moderate) (h : register.Faithful) (hb : b.Moderate)
    (hwork : Manageable p m) : @mulTo register p m a b = @mulTo word64 p m a b := by
  have hroomy := roomy_mul ha hb
  obtain ⟨-, halow, hahigh⟩ := ha
  obtain ⟨-, hblow, hbhigh⟩ := hb
  unfold mulTo
  rw [h.saturate_eq (by omega) (by omega), Register.saturate_eq (by omega) (by omega),
    hroomy.roundTo_eq h hwork]

theorem Moderate.mul_eq (ha : a.Moderate) (h : register.Faithful) (hb : b.Moderate)
    (limits : Limits) : @mul register limits a b = @mul word64 limits a b :=
  ha.mulTo_eq h hb limits.manageable

theorem divShifted_eq_of_faithful {shift : ℤ} (h : register.Faithful) (hlow : -2 ^ 62 < shift)
    (hhigh : shift < 2 ^ 62) (dividend divisor : ℕ) :
    @divShifted register shift dividend divisor = @divShifted word64 shift dividend divisor := by
  unfold divShifted
  rw [h.wrap_eq_word64 (by omega) (by omega)]

/-- The dividend of a mean is a sum before it is rounded, which may have more digits and a smaller
exponent than a moderate number. -/
theorem Roomy.divUnrounded_eq (ha : a.Roomy) (h : register.Faithful) (halow : -2 ^ 61 ≤ a.exponent)
    (hahigh : a.exponent ≤ 2 ^ 61) (hb : b.Moderate) (hp : p ≤ 2 ^ 30) :
    @divUnrounded register p a b = @divUnrounded word64 p a b := by
  have hadigits := ha.digits_le
  unfold largestPower at hadigits
  obtain ⟨hbdigits, hblow, hbhigh⟩ := hb
  unfold divUnrounded
  dsimp only
  rw [h.wrap_eq (by omega) (by omega), Register.wrap_eq (by omega) (by omega),
    h.saturate_eq (n := a.exponent - b.exponent) (by omega) (by omega),
    Register.saturate_eq (n := a.exponent - b.exponent) (by omega) (by omega),
    h.saturate_eq (by omega) (by omega), Register.saturate_eq (by omega) (by omega),
    divShifted_eq_of_faithful h (by omega) (by omega)]

theorem Roomy.divTo_eq (ha : a.Roomy) (h : register.Faithful) (halow : -2 ^ 61 ≤ a.exponent)
    (hahigh : a.exponent ≤ 2 ^ 61) (hb : b.Moderate) (hwork : Manageable p m) :
    @divTo register p m a b = @divTo word64 p m a b := by
  have hp := hwork.precision_le
  have hblow := hb.exponent_ge
  have hbhigh := hb.exponent_le
  by_cases hb0 : b.coefficient = 0
  · unfold divTo
    rw [if_pos (by simpa using hb0), if_pos (by simpa using hb0)]
  by_cases ha0 : a.coefficient = 0
  · have hroomy : (⟨0, a.exponent - b.exponent⟩ : Decimal).Roomy :=
      ⟨by simp [digits, largestPower], by dsimp only; omega, by dsimp only; omega⟩
    have hazero : a.isZero = true := isZero_iff.2 ha0
    unfold divTo
    rw [if_pos hazero, if_pos hazero, h.saturate_eq (by omega) (by omega),
      Register.saturate_eq (by omega) (by omega), hroomy.roundTo_eq h hwork]
  · have hroomy := roomy_signedQuotient ha halow hahigh hb hp ha0 hb0
    rw [divTo_of_ne_zero ha halow hahigh hb hp ha0 hb0, ← hroomy.roundTo_eq h hwork]
    unfold divTo signedQuotient
    rw [if_neg (by simpa using hb0), if_neg (by simpa using ha0),
      ha.divUnrounded_eq h halow hahigh hb hp,
      divUnrounded_eq_divUnroundedExactly ha halow hahigh hb hp]

theorem Moderate.div_eq (ha : a.Moderate) (h : register.Faithful) (hb : b.Moderate)
    (limits : Limits) : @div register limits a b = @div word64 limits a b := by
  have := ha.exponent_ge
  have := ha.exponent_le
  exact ha.roomy.divTo_eq h (by omega) (by omega) hb limits.manageable

theorem Moderate.average_eq (ha : a.Moderate) (h : register.Faithful) (hb : b.Moderate)
    (limits : Limits) : @average register limits a b = @average word64 limits a b := by
  have hp := Nat.add_le_add_right limits.manageable.precision_le 2
  obtain ⟨hlow, hhigh⟩ := exponent_addUnrounded_mem hp ha hb
  unfold average
  rw [ha.addUnrounded_eq h hb hp, (roomy_addUnrounded hp ha hb).divTo_eq h hlow (by omega)
    moderate_two limits.manageable]

theorem Moderate.remMagnitude_eq (ha : a.Moderate) (h : register.Faithful) (hb : b.Moderate) :
    @remMagnitude register a b = @remMagnitude word64 a b := by
  obtain ⟨-, halow, hahigh⟩ := ha
  obtain ⟨-, hblow, hbhigh⟩ := hb
  unfold remMagnitude
  dsimp only
  rw [h.wrap_eq_word64 (by omega) (by omega), h.wrap_eq_word64 (by omega) (by omega)]

theorem Moderate.rem_eq (ha : a.Moderate) (h : register.Faithful) (hb : b.Moderate)
    (limits : Limits) : @rem register limits a b = @rem word64 limits a b := by
  unfold rem
  by_cases hb0 : b.coefficient = 0
  · rw [if_pos (by simpa using hb0), if_pos (by simpa using hb0)]
  · rw [if_neg (by simpa using hb0), if_neg (by simpa using hb0), ha.remMagnitude_eq h hb]
    exact (roomy_remainder ha hb hb0).round_eq h limits

end Decimal

end Reckon
