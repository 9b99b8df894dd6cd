import Reckon.Proofs.Decimal.Sum

/-!
# A sum is the exact sum, rounded once

`exactSum` writes out both operands at the smaller of their exponents, however many zeros that
takes, and adds the coefficients.  `add` never forms such a number when the operands are far apart,
yet its result is the rounded exact sum, coefficient and exponent alike
(`add_eq_roundExactly`).

## Strategy

What `add` hands to the rounding is the exact sum itself, or it has more digits than are kept, and
so has the exact sum (`addUnrounded_cases_exactSum`).  In the second case rounding leaves exactly as
many digits as are kept, so it depends on the value only (`roundExactly_eq_of_lt_digits`), and the
values are known to be rounded alike (`roundsAs_addUnrounded`).

That both are long enough is a matter of leading digits: the leading digit of a sum stands at most
one place below that of the larger operand (`le_log_abs_add`), and the floor that stand-ins are
placed at leaves room for that.
-/

namespace Reckon.Decimal

variable {p : ℕ} {m : ℤ} {a b d : Decimal}

/-- The sum at the smaller exponent, with all the zeros that the other operand needs. -/
def exactSum (a b : Decimal) : Decimal :=
  let exponent := min a.exponent b.exponent
  ⟨a.coefficient * 10 ^ (a.exponent - exponent).toNat +
    b.coefficient * 10 ^ (b.exponent - exponent).toNat, exponent⟩

/-- The difference at the smaller exponent, with all the zeros that the other operand needs. -/
def exactDifference (a b : Decimal) : Decimal :=
  let exponent := min a.exponent b.exponent
  ⟨a.coefficient * 10 ^ (a.exponent - exponent).toNat -
    b.coefficient * 10 ^ (b.exponent - exponent).toNat, exponent⟩

theorem exactSum_comm (a b : Decimal) : exactSum a b = exactSum b a := by
  unfold exactSum
  dsimp only
  rw [min_comm, add_comm]

theorem exactSum_neg (a b : Decimal) : exactSum a (-b) = exactDifference a b := by
  unfold exactSum exactDifference
  dsimp only
  rw [neg_exponent, neg_coefficient, neg_mul, ← sub_eq_add_neg]

theorem value_exactSum (a b : Decimal) : (exactSum a b).value = a.value + b.value := by
  have hleft := mul_ten_zpow_eq (min_le_left a.exponent b.exponent) a.coefficient
  have hright := mul_ten_zpow_eq (min_le_right a.exponent b.exponent) b.coefficient
  rw [value, value, value, hleft, hright, ← add_mul, ← Int.cast_add]
  rfl

/-! ## Sums that are formed exactly -/

theorem addAligned_eq_exactSum (he : b.exponent ≤ a.exponent)
    (hgap : a.exponent - b.exponent ≤ largestPower) : addAligned a b = exactSum a b := by
  unfold addAligned exactSum
  dsimp only
  rw [min_eq_right he, rescale_eq he hgap, rescale_eq le_rfl (by simp)]

/-- A number has many digits when its leading digit stands far above its last one. -/
theorem lt_digits_of_zpow_le (h : (10 : ℚ) ^ (d.exponent + p) ≤ |d.value|) : p < d.digits := by
  have hleading := ten_zpow_lt_iff.1 (h.trans_lt d.abs_value_lt)
  unfold leading at hleading
  omega

/-- A zero operand lowers the exponent of the other one, unless that shows more digits than are
kept. -/
private theorem addZero_cases (hp : p ≤ 2 ^ 30 + 2) (ha : a.Moderate) (hb : b.Moderate)
    (ha0 : a.coefficient = 0) :
    addZero p a b = exactSum a b ∨
      p < (addZero p a b).digits ∧ p < (exactSum a b).digits := by
  have hvalue := value_addZero hp ha hb
  have hsum : (exactSum a b).value = b.value := by
    rw [value_exactSum, value_eq_zero_iff.2 ha0, zero_add]
  by_cases hb0 : b.coefficient = 0
  · left
    unfold addZero exactSum
    dsimp only
    rw [if_pos (by simpa using hb0), rescale]
    simp [ha0, hb0]
  have hfloor : (addZero p a b).exponent =
      max (min a.exponent b.exponent) (b.exponent - p - 1) := by
    obtain ⟨-, hlow, hhigh⟩ := hb
    unfold addZero
    dsimp only
    rw [if_neg (by simpa using hb0), Register.wrap_eq (by omega) (by omega)]
    rfl
  rcases le_or_gt (b.exponent - p - 1) (min a.exponent b.exponent) with hshown | hhidden
  · left
    have hrescale : addZero p a b = b.rescale (min a.exponent b.exponent) := by
      rw [max_eq_left hshown] at hfloor
      rw [← hfloor]
      rfl
    rw [hrescale, rescale_eq (min_le_right ..) (by unfold largestPower; omega)]
    simp [exactSum, ha0]
  · -- both are the other operand, written out to more than `p` digits
    right
    rw [max_eq_right hhidden.le] at hfloor
    have hleading := zpow_leading_le hb0
    have hdigits := b.digits_pos
    constructor
    · apply lt_digits_of_zpow_le
      rw [hvalue]
      refine le_trans (ten_zpow_le_iff.2 ?_) hleading
      unfold leading
      omega
    · apply lt_digits_of_zpow_le
      rw [hsum]
      refine le_trans (ten_zpow_le_iff.2 ?_) hleading
      unfold leading exactSum
      dsimp only
      omega

/-! ## Sums with a stand-in -/

/-- So far above a small operand the larger one is that neither the sum nor the one with the
stand-in falls short of the digits that are kept. -/
private theorem lt_digits_standIn (hp0 : 0 < p) (hp : p ≤ 2 ^ 30 + 2) (ha : a.Moderate)
    (ha0 : a.coefficient ≠ 0) (hb0 : b.coefficient ≠ 0) (he : b.exponent ≤ a.exponent)
    (hfloor : b.leading < visibleFloor p a) :
    p < (addAligned a ⟨b.coefficient.sign, visibleFloor p a⟩).digits ∧
      p < (exactSum a b).digits := by
  have hplace := visibleFloor_eq hp ha
  have hadigits := ha.digits_lt
  have hbdigits := b.digits_pos
  have hone : (⟨b.coefficient.sign, visibleFloor p a⟩ : Decimal).digits = 1 :=
    digits_eq (k := 0) (by rw [Int.abs_sign_of_ne_zero hb0]; norm_num)
      (by rw [Int.abs_sign_of_ne_zero hb0]; norm_num)
  -- either small operand leaves the leading digit of the sum where it was, or one place below
  have hlog : ∀ {small : Decimal}, small.leading ≤ visibleFloor p a →
      (10 : ℚ) ^ (a.leading - 1) ≤ |a.value + small.value| := by
    intro small hsmall
    have hle := le_log_abs_add (b := small) ha0 (by unfold leading at *; omega)
    have hne : a.value + small.value ≠ 0 := by
      intro hzero
      have hbelow := small.abs_value_lt
      have habove := zpow_leading_le ha0
      rw [eq_neg_of_add_eq_zero_left hzero, abs_neg] at habove
      have := ten_zpow_lt_iff.1 (habove.trans_lt hbelow)
      unfold leading at *
      omega
    exact (ten_zpow_le_iff.2 hle).trans (zpow_log_abs_le hne)
  constructor
  · apply lt_digits_of_zpow_le
    have hexponent : (addAligned a ⟨b.coefficient.sign, visibleFloor p a⟩).exponent =
        visibleFloor p a := min_eq_right (by dsimp only; omega)
    rw [hexponent, value_addAligned (by dsimp only; omega)
      (by dsimp only; unfold largestPower; omega)]
    refine le_trans (ten_zpow_le_iff.2 ?_) (hlog ?_)
    · unfold leading
      omega
    · unfold leading
      rw [hone]
      dsimp only
      omega
  · apply lt_digits_of_zpow_le
    have hexponent : (exactSum a b).exponent = b.exponent := min_eq_right he
    rw [hexponent, value_exactSum]
    refine le_trans (ten_zpow_le_iff.2 ?_) (hlog hfloor.le)
    unfold leading at *
    omega

private theorem addAligned_standIn_cases (hp0 : 0 < p) (hp : p ≤ 2 ^ 30 + 2) (ha : a.Moderate)
    (hb : b.Moderate) (ha0 : a.coefficient ≠ 0) (hb0 : b.coefficient ≠ 0)
    (he : b.exponent ≤ a.exponent) :
    addAligned a (b.standIn (visibleFloor p a)) = exactSum a b ∨
      p < (addAligned a (b.standIn (visibleFloor p a))).digits ∧ p < (exactSum a b).digits := by
  rw [standIn_eq hb]
  split
  · next hlt => exact Or.inr (lt_digits_standIn hp0 hp ha ha0 hb0 he hlt)
  · next hnot =>
    have hgap := gap_le hp ha hnot
    have := ha.digits_lt
    have := hb.digits_lt
    exact Or.inl (addAligned_eq_exactSum he (by unfold largestPower; omega))

/-! ## The main result -/

/-- What is handed to the rounding is the exact sum, or both have more digits than are kept. -/
theorem addUnrounded_cases_exactSum (hp0 : 0 < p) (hp : p ≤ 2 ^ 30 + 2) (ha : a.Moderate)
    (hb : b.Moderate) :
    addUnrounded p a b = exactSum a b ∨
      p < (addUnrounded p a b).digits ∧ p < (exactSum a b).digits := by
  obtain ⟨ha0, heq⟩ | ⟨hb0, heq⟩ | ⟨ha0, hb0, he, heq⟩ | ⟨ha0, hb0, he, heq⟩ :=
    addUnrounded_cases p a b
  · rw [heq]
    exact addZero_cases hp ha hb ha0
  · rw [heq, exactSum_comm]
    exact addZero_cases hp hb ha hb0
  · rw [heq]
    exact addAligned_standIn_cases hp0 hp ha hb ha0 hb0 he
  · rw [heq, exactSum_comm]
    exact addAligned_standIn_cases hp0 hp hb ha hb0 ha0 he

theorem roundExactly_addUnrounded (hp0 : 0 < p) (hp : p ≤ 2 ^ 30 + 2) (ha : a.Moderate)
    (hb : b.Moderate) :
    (addUnrounded p a b).roundExactly p m = (exactSum a b).roundExactly p m := by
  rcases addUnrounded_cases_exactSum hp0 hp ha hb with heq | ⟨hformed, hexact⟩
  · rw [heq]
  · apply roundExactly_eq_of_lt_digits hp0 hformed hexact
    rw [value_exactSum]
    exact (roundsAs_addUnrounded hp ha hb).nearest_eq hp0

theorem add_eq_roundExactly (limits : Limits) (ha : a.Moderate) (hb : b.Moderate) :
    add limits a b = (exactSum a b).roundExactly limits.precision limits.maxExponent := by
  have h := limits.manageable
  have hp : limits.precision ≤ 2 ^ 30 + 2 := by
    have := h.precision_le
    omega
  unfold add round
  rw [roundTo_eq_roundExactly h (roomy_addUnrounded hp ha hb),
    roundExactly_addUnrounded h.precision_pos hp ha hb]

/-- However far apart the operands are, their sum is the exact sum rounded once, and their
difference the exact difference: the same coefficient and exponent, or the same failure.  So the
order of the operands does not matter to a sum, not even to the way in which it is written. -/
theorem add_eq_exact_sum_rounded (limits : Limits) (ha : a.Moderate) (hb : b.Moderate) :
    add limits a b = (exactSum a b).roundExactly limits.precision limits.maxExponent ∧
      sub limits a b = (exactDifference a b).roundExactly limits.precision limits.maxExponent ∧
      add limits a b = add limits b a := by
  refine ⟨add_eq_roundExactly limits ha hb, ?_, ?_⟩
  · rw [← exactSum_neg]
    exact add_eq_roundExactly limits ha hb.neg
  · rw [add_eq_roundExactly limits ha hb, add_eq_roundExactly limits hb ha, exactSum_comm]

/-- One is far below the last digit of a power of ten, and taking it off or adding it is rounded as
if all sixty digits had been written. -/
theorem sixty_nines_rounded :
    (⟨1, 60⟩ : Decimal).Moderate ∧ (⟨1, 0⟩ : Decimal).Moderate ∧
      add .default ⟨1, 60⟩ ⟨1, 0⟩ = (⟨10 ^ 60 + 1, 0⟩ : Decimal).roundExactly 28 999999 ∧
      sub .default ⟨1, 60⟩ ⟨1, 0⟩ = (⟨10 ^ 60 - 1, 0⟩ : Decimal).roundExactly 28 999999 ∧
      add .default ⟨1, 60⟩ ⟨1, 0⟩ = add .default ⟨1, 0⟩ ⟨1, 60⟩ := by
  have hlarge : (⟨1, 60⟩ : Decimal).Moderate := ⟨by decide, by decide, by decide⟩
  have hsmall : (⟨1, 0⟩ : Decimal).Moderate := ⟨by decide, by decide, by decide⟩
  exact ⟨hlarge, hsmall, add_eq_exact_sum_rounded .default hlarge hsmall⟩

end Reckon.Decimal
