import Reckon.Decimal.Sum
import Reckon.Proofs.Decimal.Rounded

/-!
# Sums

What `addUnrounded` forms is the exact sum, unless the smaller operand is so far below the larger
one that a single digit stands in for it.  In that case the larger operand is a multiple of a
half-way point, and the smaller one moves the sum off it to the side that the stand-in moves it to
(`roundsAs_standIn`); the leading digit of the sum is at most one place below that of the larger
operand, so nothing of this can be seen after rounding (`roundsAs_addUnrounded`).

The gap between the exponents is bounded by the digits of the operands (`gap_le`), which is what
keeps the sum roomy (`roomy_addUnrounded`).
-/

namespace Reckon.Decimal

variable {p : ℕ} {a b : Decimal}

/-! ## A zero operand -/

private theorem addZero_exponent (hp : p ≤ 2 ^ 30 + 2) (ha : a.Moderate) (hb : b.Moderate) :
    ∃ e : ℤ, addZero p a b = b.rescale e ∧ -2 ^ 61 ≤ e ∧ e ≤ b.exponent ∧
      (b.coefficient = 0 ∨ b.exponent - e ≤ p + 1) := by
  obtain ⟨-, hage, hale⟩ := ha
  obtain ⟨-, hbge, hble⟩ := hb
  unfold addZero
  rw [Register.wrap_eq (by omega) (by omega)]
  dsimp only
  refine ⟨_, rfl, ?_⟩
  split
  · next h => exact ⟨by omega, by omega, Or.inl (by simpa using h)⟩
  · next h => exact ⟨by omega, by omega, Or.inr (by omega)⟩

theorem value_addZero (hp : p ≤ 2 ^ 30 + 2) (ha : a.Moderate) (hb : b.Moderate) :
    (addZero p a b).value = b.value := by
  obtain ⟨e, heq, -, he, hzero | hgap⟩ := addZero_exponent hp ha hb
  · rw [heq, value_eq_zero_iff.2 hzero, value_eq_zero_iff, rescale]
    simp [hzero]
  · rw [heq, value_rescale he (by unfold largestPower; omega)]

theorem roomy_addZero (hp : p ≤ 2 ^ 30 + 2) (ha : a.Moderate) (hb : b.Moderate) :
    (addZero p a b).Roomy := by
  obtain ⟨e, heq, hlow, he, hcase⟩ := addZero_exponent hp ha hb
  have hexponent : (addZero p a b).exponent = e := by rw [heq]; rfl
  have hble := hb.exponent_le
  refine ⟨?_, by omega, by omega⟩
  rcases hcase with hzero | hgap
  · have hcoefficient : (addZero p a b).coefficient = 0 := by simp [heq, rescale, hzero]
    simp [digits, hcoefficient, largestPower]
  · have hdigits := digits_rescale_le he (by unfold largestPower; omega)
    have := hb.digits_lt
    rw [heq]
    unfold largestPower
    omega

/-! ## Two operands at a common exponent -/

/-- The larger operand is written out down to the exponent of the smaller one. -/
theorem value_addAligned (he : b.exponent ≤ a.exponent)
    (hgap : a.exponent - b.exponent ≤ largestPower) :
    (addAligned a b).value = a.value + b.value := by
  have hleft := value_rescale he hgap
  have hright : (b.rescale b.exponent).value = b.value := value_rescale le_rfl (by simp)
  unfold addAligned
  rw [min_eq_right he, ← hleft, ← hright]
  simp only [value, rescale]
  push_cast
  ring

/-- A sum has at most one digit more than its longer operand. -/
theorem digits_addAligned_le {n : ℕ} (he : b.exponent ≤ a.exponent)
    (hgap : a.exponent - b.exponent ≤ largestPower)
    (ha : a.digits + (a.exponent - b.exponent).toNat ≤ n) (hb : b.digits ≤ n) :
    (addAligned a b).digits ≤ n + 1 := by
  have hn : 0 < n := b.digits_pos.trans_le hb
  have hleft := (digits_le_iff hn).1 ((digits_rescale_le he hgap).trans ha)
  have hright : |(b.rescale b.exponent).coefficient| < 10 ^ n := by
    rw [rescale_eq le_rfl (by simp), sub_self]
    simpa using (digits_le_iff hn).1 hb
  rw [digits_le_iff n.succ_pos]
  unfold addAligned
  rw [min_eq_right he]
  calc |(a.rescale b.exponent).coefficient + (b.rescale b.exponent).coefficient|
      ≤ |(a.rescale b.exponent).coefficient| + |(b.rescale b.exponent).coefficient| :=
        abs_add_le _ _
    _ < 10 ^ n + 10 ^ n := add_lt_add hleft hright
    _ ≤ 10 ^ (n + 1) := by
        rw [pow_succ]
        have : (0 : ℤ) < 10 ^ n := by positivity
        omega

/-! ## The stand-in -/

theorem visibleFloor_eq (hp : p ≤ 2 ^ 30 + 2) (ha : a.Moderate) :
    visibleFloor p a = a.exponent + min (-1) ((a.digits : ℤ) - p - 2) := by
  obtain ⟨hdigits, hge, hle⟩ := ha
  unfold visibleFloor
  rw [Register.wrap_eq (n := (a.digits : ℤ) - p - 2) (by omega) (by omega),
    Register.wrap_eq (by omega) (by omega)]

theorem standIn_eq {floor : ℤ} (hb : b.Moderate) :
    standIn floor b = if b.leading < floor then ⟨b.coefficient.sign, floor⟩ else b := by
  unfold standIn
  rw [adjustedExponent_eq hb.roomy]

/-- Where no stand-in is needed, the operands are not far apart. -/
theorem gap_le (hp : p ≤ 2 ^ 30 + 2) (ha : a.Moderate)
    (hfloor : ¬ b.leading < visibleFloor p a) :
    a.exponent - b.exponent ≤ b.digits - 1 + max 1 ((p : ℤ) + 2 - a.digits) := by
  rw [visibleFloor_eq hp ha] at hfloor
  unfold leading at hfloor
  omega

/-- With so small an operand the leading digit of a sum stands at most one place below that of the
larger one. -/
theorem le_log_abs_add (ha0 : a.coefficient ≠ 0) (hb : b.leading + 1 ≤ a.leading - 1) :
    a.leading - 1 ≤ Int.log 10 |a.value + b.value| := by
  have hbelow : |b.value| < 10 ^ (a.leading - 1) :=
    b.abs_value_lt.trans_le (ten_zpow_le_iff.2 hb)
  have hten : (10 : ℚ) ^ a.leading = 10 * 10 ^ (a.leading - 1) := by
    rw [← zpow_one_add₀ (by norm_num)]
    congr 1
    omega
  have htriangle : |a.value| - |b.value| ≤ |a.value + b.value| := by
    have := abs_sub_abs_le_abs_sub a.value (-b.value)
    rwa [abs_neg, sub_neg_eq_add] at this
  have hleading : (10 : ℚ) ^ (a.leading - 1) ≤ |a.value + b.value| := by
    have := zpow_leading_le ha0
    linarith [ten_zpow_pos (a.leading - 1)]
  exact le_log hleading

/-- Added to a multiple of a half-way point, two numbers of one sign that are smaller than it move
to the same side. -/
private theorem sameSide_add {u x y z : ℚ} (hx : ∃ k : ℤ, x = k * u) (hy : |y| < u) (hz : |z| < u)
    (hsign : 0 < y ∧ 0 < z ∨ y < 0 ∧ z < 0) : SameSide u (x + y) (x + z) := by
  obtain ⟨k, rfl⟩ := hx
  have hu : 0 < u := (abs_nonneg y).trans_lt hy
  obtain ⟨hylow, hyhigh⟩ := abs_lt.1 hy
  obtain ⟨hzlow, hzhigh⟩ := abs_lt.1 hz
  rcases hsign with ⟨hypos, hzpos⟩ | ⟨hyneg, hzneg⟩
  · refine SameSide.of_between (k := k) hu ?_ ?_ <;> constructor <;> linarith
  · refine SameSide.of_between (k := k - 1) hu ?_ ?_ <;> push_cast <;> constructor <;> linarith

/-- The stand-in moves the sum to the side of the half-way points that the operand moves it to. -/
private theorem roundsAs_standIn (hp : p ≤ 2 ^ 30 + 2) (ha : a.Moderate) (ha0 : a.coefficient ≠ 0)
    (hb0 : b.coefficient ≠ 0) (hfloor : b.leading < visibleFloor p a) :
    RoundsAs p (a.value + b.value)
      (a.value + (⟨b.coefficient.sign, visibleFloor p a⟩ : Decimal).value) := by
  have heq := visibleFloor_eq hp ha
  have hdigits := a.digits_pos
  have hunit := ten_zpow_pos (visibleFloor p a)
  have hlog := le_log_abs_add (b := b) ha0 (by unfold leading at *; omega)
  refine Or.inr ⟨visibleFloor p a, by unfold leading at *; omega, sameSide_add ?_ ?_ ?_ ?_⟩
  · -- the digits of the larger operand end above the floor
    refine ⟨2 * a.coefficient * 10 ^ (a.exponent - (visibleFloor p a + 1)).toNat, ?_⟩
    have hfloor : visibleFloor p a + 1 ≤ a.exponent := by omega
    rw [value, mul_ten_zpow_eq hfloor, ten_zpow_add]
    push_cast
    ring
  · have hbelow : |b.value| < 10 ^ visibleFloor p a :=
      b.abs_value_lt.trans_le (ten_zpow_le_iff.2 (by omega))
    linarith
  · rw [abs_value]
    have hsign : |b.coefficient.sign| = 1 := Int.abs_sign_of_ne_zero hb0
    dsimp only
    rw [hsign, Int.cast_one]
    linarith
  · rcases lt_or_gt_of_ne hb0 with hneg | hpos
    · refine Or.inr ⟨value_lt_zero_iff.2 hneg, value_lt_zero_iff.2 ?_⟩
      dsimp only
      rw [Int.sign_eq_neg_one_of_neg hneg]
      norm_num
    · refine Or.inl ⟨value_pos_iff.2 hpos, value_pos_iff.2 ?_⟩
      dsimp only
      rw [Int.sign_eq_one_of_pos hpos]
      norm_num

/-! ## The sum before it is rounded -/

/-- Either operand is zero, or the one with the larger exponent is written out down to the other
one or to its stand-in. -/
theorem addUnrounded_cases (p : ℕ) (a b : Decimal) :
    (a.coefficient = 0 ∧ addUnrounded p a b = addZero p a b) ∨
      (b.coefficient = 0 ∧ addUnrounded p a b = addZero p b a) ∨
      (a.coefficient ≠ 0 ∧ b.coefficient ≠ 0 ∧ b.exponent ≤ a.exponent ∧
        addUnrounded p a b = addAligned a (b.standIn (visibleFloor p a))) ∨
      (a.coefficient ≠ 0 ∧ b.coefficient ≠ 0 ∧ a.exponent ≤ b.exponent ∧
        addUnrounded p a b = addAligned b (a.standIn (visibleFloor p b))) := by
  unfold addUnrounded
  by_cases ha : a.coefficient = 0
  · exact Or.inl ⟨ha, if_pos (by simpa using ha)⟩
  rw [if_neg (by simpa using ha)]
  by_cases hb : b.coefficient = 0
  · exact Or.inr (Or.inl ⟨hb, if_pos (by simpa using hb)⟩)
  rw [if_neg (by simpa using hb)]
  by_cases he : b.exponent ≤ a.exponent
  · exact Or.inr (Or.inr (Or.inl ⟨ha, hb, he, by rw [if_pos he]⟩))
  · exact Or.inr (Or.inr (Or.inr ⟨ha, hb, by omega, by rw [if_neg he]⟩))

private theorem roomy_addAligned_standIn (hp : p ≤ 2 ^ 30 + 2) (ha : a.Moderate) (hb : b.Moderate)
    (he : b.exponent ≤ a.exponent) : (addAligned a (b.standIn (visibleFloor p a))).Roomy := by
  have hfloor := visibleFloor_eq hp ha
  have hadigits := ha.digits_lt
  have hbdigits := hb.digits_lt
  have := ha.exponent_ge
  have := ha.exponent_le
  have := hb.exponent_ge
  have := a.digits_pos
  have := b.digits_pos
  rw [standIn_eq hb]
  split
  · -- a stand-in is one digit long
    have hsign : (⟨b.coefficient.sign, visibleFloor p a⟩ : Decimal).digits = 1 := by
      show digitCount b.coefficient.sign.natAbs = 1
      rcases Int.sign_trichotomy b.coefficient with h | h | h <;> rw [h] <;> decide
    have hdigits := digits_addAligned_le (a := a) (b := ⟨b.coefficient.sign, visibleFloor p a⟩)
      (n := 2 ^ 31) (by dsimp only; omega) (by dsimp only; unfold largestPower; omega)
      (by dsimp only; omega) (by omega)
    refine ⟨by unfold largestPower; omega, ?_, ?_⟩ <;> unfold addAligned <;> dsimp only <;> omega
  · next hnot =>
    have hgap := gap_le hp ha hnot
    have hdigits := digits_addAligned_le (n := 2 ^ 32 - 2) he (by unfold largestPower; omega)
      (by omega) (by omega)
    refine ⟨by unfold largestPower; omega, ?_, ?_⟩ <;> unfold addAligned <;> dsimp only <;> omega

/-- The sum of moderate numbers can be rounded, however far apart they are. -/
theorem roomy_addUnrounded (hp : p ≤ 2 ^ 30 + 2) (ha : a.Moderate) (hb : b.Moderate) :
    (addUnrounded p a b).Roomy := by
  obtain ⟨-, heq⟩ | ⟨-, heq⟩ | ⟨-, -, he, heq⟩ | ⟨-, -, he, heq⟩ := addUnrounded_cases p a b
  · exact heq ▸ roomy_addZero hp ha hb
  · exact heq ▸ roomy_addZero hp hb ha
  · exact heq ▸ roomy_addAligned_standIn hp ha hb he
  · exact heq ▸ roomy_addAligned_standIn hp hb ha he

/-- The exponent of the sum is the smaller one, or one just below the digits that can be seen. -/
theorem exponent_addUnrounded_mem (hp : p ≤ 2 ^ 30 + 2) (ha : a.Moderate) (hb : b.Moderate) :
    -2 ^ 61 ≤ (addUnrounded p a b).exponent ∧ (addUnrounded p a b).exponent ≤ 2 ^ 60 := by
  have hzero : ∀ {a b : Decimal}, a.Moderate → b.Moderate →
      -2 ^ 61 ≤ (addZero p a b).exponent ∧ (addZero p a b).exponent ≤ 2 ^ 60 := by
    intro a b ha hb
    obtain ⟨e, heq, hlow, he, -⟩ := addZero_exponent hp ha hb
    have := hb.exponent_le
    rw [heq]
    exact ⟨hlow, he.trans this⟩
  have haligned : ∀ {a b : Decimal}, a.Moderate → b.Moderate → b.exponent ≤ a.exponent →
      -2 ^ 61 ≤ (addAligned a (b.standIn (visibleFloor p a))).exponent ∧
        (addAligned a (b.standIn (visibleFloor p a))).exponent ≤ 2 ^ 60 := by
    intro a b ha hb he
    have hfloor := visibleFloor_eq hp ha
    have := ha.exponent_ge
    have := ha.exponent_le
    have := hb.exponent_ge
    have := a.digits_pos
    rw [standIn_eq hb]
    unfold addAligned
    split <;> constructor <;> dsimp only <;> omega
  obtain ⟨-, heq⟩ | ⟨-, heq⟩ | ⟨-, -, he, heq⟩ | ⟨-, -, he, heq⟩ := addUnrounded_cases p a b
  · exact heq ▸ hzero ha hb
  · exact heq ▸ hzero hb ha
  · exact heq ▸ haligned ha hb he
  · exact heq ▸ haligned hb ha he

private theorem roundsAs_addAligned_standIn (hp : p ≤ 2 ^ 30 + 2) (ha : a.Moderate)
    (hb : b.Moderate) (ha0 : a.coefficient ≠ 0) (hb0 : b.coefficient ≠ 0)
    (he : b.exponent ≤ a.exponent) :
    RoundsAs p (a.value + b.value) (addAligned a (b.standIn (visibleFloor p a))).value := by
  have hfloor := visibleFloor_eq hp ha
  have := ha.digits_lt
  have := hb.digits_lt
  rw [standIn_eq hb]
  split
  · next hlt =>
    rw [value_addAligned (by dsimp only; omega) (by dsimp only; unfold largestPower; omega)]
    exact roundsAs_standIn hp ha ha0 hb0 hlt
  · next hnot =>
    have hgap := gap_le hp ha hnot
    rw [value_addAligned he (by unfold largestPower; omega)]
    exact Or.inl rfl

/-- What is formed is rounded as the exact sum. -/
theorem roundsAs_addUnrounded (hp : p ≤ 2 ^ 30 + 2) (ha : a.Moderate) (hb : b.Moderate) :
    RoundsAs p (a.value + b.value) (addUnrounded p a b).value := by
  obtain ⟨hzero, heq⟩ | ⟨hzero, heq⟩ | ⟨ha0, hb0, he, heq⟩ | ⟨ha0, hb0, he, heq⟩ :=
    addUnrounded_cases p a b
  · rw [heq, value_addZero hp ha hb, value_eq_zero_iff.2 hzero, zero_add]
    exact Or.inl rfl
  · rw [heq, value_addZero hp hb ha, value_eq_zero_iff.2 hzero, add_zero]
    exact Or.inl rfl
  · rw [heq]
    exact roundsAs_addAligned_standIn hp ha hb ha0 hb0 he
  · rw [heq, add_comm]
    exact roundsAs_addAligned_standIn hp hb ha hb0 ha0 he

theorem roundsOnce_add (limits : Limits) (ha : a.Moderate) (hb : b.Moderate) :
    RoundsOnce limits.precision limits.maxExponent (a.value + b.value) (add limits a b) := by
  have hp : limits.precision ≤ 2 ^ 30 + 2 := by
    have := limits.manageable.precision_le
    omega
  exact ⟨_, roomy_addUnrounded hp ha hb, roundsAs_addUnrounded hp ha hb, rfl⟩

theorem roundsOnce_sub (limits : Limits) (ha : a.Moderate) (hb : b.Moderate) :
    RoundsOnce limits.precision limits.maxExponent (a.value - b.value) (sub limits a b) := by
  rw [sub_eq_add_neg, ← value_neg]
  exact roundsOnce_add limits ha hb.neg

end Reckon.Decimal
