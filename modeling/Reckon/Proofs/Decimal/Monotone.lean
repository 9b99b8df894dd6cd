import Reckon.Proofs.Decimal.Order
import Reckon.Proofs.Decimal.CorrectRounding

/-!
# Rounded arithmetic keeps the order

A larger exact result is never rounded to a smaller number.  Rounding to a number of digits keeps
the order (`nearest_mono`), and so does holding the rounded numbers to the range: what is too small
becomes zero, between the negative and the positive numbers that are kept, and whatever has a larger
magnitude than a number without result has none either (`RoundsOnce.eq_overflow_of_abs_le`).

Sums, means, products and quotients are their exact results rounded once, so they inherit the order
of the exact ones (`RoundsOnce.notAbove`), no matter which of two neighbouring operations has used a
stand-in or a marked digit.  A mean lies between its operands, hence also after all three have been
rounded.
-/

namespace Reckon

variable {p : ℕ} {m : ℤ} {x y : ℚ}

/-! ## Rounded numbers -/

theorem nearestEven_mono (h : x ≤ y) : nearestEven x ≤ nearestEven y := by
  have hx := (abs_le.1 (show |x - nearestEven x| ≤ 1 / 2 by
    linarith [two_mul_abs_sub_nearestEven_le x])).1
  have hy := (abs_le.1 (show |y - nearestEven y| ≤ 1 / 2 by
    linarith [two_mul_abs_sub_nearestEven_le y])).2
  by_contra hlt
  have hnext : (nearestEven y : ℚ) + 1 ≤ nearestEven x := by exact_mod_cast not_le.1 hlt
  -- both lie half-way between the same two integers, so they are the same number
  have heq : x = y := by linarith
  rw [heq] at hlt
  exact hlt le_rfl

/-- Rounding takes a number at most up to the place above its leading digit. -/
theorem abs_nearest_le (p : ℕ) (x : ℚ) : |nearest p x| ≤ 10 ^ (Int.log 10 |x| + 1) := by
  have hunit := ten_zpow_pos (Int.log 10 |x| + 1 - p)
  have hplace : |x| ≤ ((10 ^ p : ℤ) : ℚ) * 10 ^ (Int.log 10 |x| + 1 - p) := by
    push_cast
    rw [mul_comm, ten_zpow_sub_mul]
    exact (abs_lt_zpow_log x).le
  have hrounded := nearestEven_le ((div_le_iff₀ hunit).2 hplace)
  rw [abs_nearest, nearest, abs_abs]
  calc (nearestEven (|x| / 10 ^ (Int.log 10 |x| + 1 - p)) : ℚ) * 10 ^ (Int.log 10 |x| + 1 - p)
      ≤ ((10 ^ p : ℤ) : ℚ) * 10 ^ (Int.log 10 |x| + 1 - p) :=
        mul_le_mul_of_nonneg_right (by exact_mod_cast hrounded) hunit.le
    _ = 10 ^ (Int.log 10 |x| + 1) := by
        push_cast
        rw [mul_comm, ten_zpow_sub_mul]

theorem nearest_nonneg (hx : 0 ≤ x) : 0 ≤ nearest p x := by
  rw [← abs_of_nonneg hx, ← abs_nearest]
  exact abs_nonneg _

private theorem nearest_mono_of_pos (hp : 0 < p) (hx : 0 < x) (h : x ≤ y) :
    nearest p x ≤ nearest p y := by
  have hy : 0 < y := hx.trans_le h
  rcases (Int.log_mono_right (b := 10) hx h).eq_or_lt with heq | hlt
  · -- the last places are the same
    have hunit := ten_zpow_pos (Int.log 10 y + 1 - p)
    have hscaled := div_le_div_of_nonneg_right h hunit.le
    unfold nearest
    rw [abs_of_pos hx, abs_of_pos hy, heq]
    exact mul_le_mul_of_nonneg_right (by exact_mod_cast nearestEven_mono hscaled) hunit.le
  · -- a power of ten lies between the two rounded numbers
    calc nearest p x ≤ |nearest p x| := le_abs_self _
      _ ≤ 10 ^ (Int.log 10 |x| + 1) := abs_nearest_le p x
      _ ≤ 10 ^ Int.log 10 |y| := by
          rw [abs_of_pos hx, abs_of_pos hy]
          exact ten_zpow_le_iff.2 hlt
      _ ≤ |nearest p y| := zpow_log_le_abs_nearest hp hy.ne'
      _ = nearest p y := abs_of_nonneg (nearest_nonneg hy.le)

/-- Rounding keeps the order of numbers. -/
theorem nearest_mono (hp : 0 < p) (h : x ≤ y) : nearest p x ≤ nearest p y := by
  rcases lt_trichotomy x 0 with hx | rfl | hx
  · rcases le_or_gt 0 y with hy | hy
    · have hopposite := nearest_nonneg (p := p) (neg_nonneg.2 hx.le)
      rw [nearest_neg] at hopposite
      exact (neg_nonneg.1 hopposite).trans (nearest_nonneg hy)
    · have hopposite := nearest_mono_of_pos hp (neg_pos.2 hy) (neg_le_neg h)
      rw [nearest_neg, nearest_neg] at hopposite
      exact neg_le_neg_iff.1 hopposite
  · rw [nearest_zero]
    exact nearest_nonneg h
  · exact nearest_mono_of_pos hp hx h

/-- A number of larger magnitude has its leading digit, after rounding, in no lower place. -/
theorem log_nearest_le_of_abs_le (hp : 0 < p) (hx : x ≠ 0) (h : |x| ≤ |y|) :
    Int.log 10 |nearest p x| ≤ Int.log 10 |nearest p y| := by
  apply Int.log_mono_right (abs_pos.2 (nearest_ne_zero hp hx))
  rw [abs_nearest, abs_nearest]
  exact nearest_mono hp h

namespace Decimal

variable {a a' b b' c u v : Decimal} {result result' : Except ArithmeticFault Decimal}

/-! ## Results -/

/-- Decimals are ordered as the numbers that they stand for. -/
theorem Moderate.le_iff (ha : a.Moderate) (hb : b.Moderate) :
    a.le b = true ↔ a.value ≤ b.value := by
  unfold le
  rw [ha.compare_eq hb, bne_iff_ne, ne_eq, compare_gt_iff_gt, not_lt]

/-- Of two results the first is not above the second, where both are numbers. -/
def NotAbove (result result' : Except ArithmeticFault Decimal) : Prop :=
  ∀ u v, result = .ok u → result' = .ok v → u.le v = true

theorem RoundsOnce.moderate (h : Manageable p m) (hx : RoundsOnce p m x result)
    (hu : result = .ok u) : u.Moderate :=
  (hx.rounds.normal h hu).moderate h

/-- A number that is too small to be kept lies above the negative ones that are. -/
private theorem nearest_nonneg_of_log_lt (hp : 0 < p) (h : x ≤ y)
    (hlog : Int.log 10 |nearest p x| < Int.log 10 |nearest p y|) : 0 ≤ nearest p y := by
  by_contra hneg
  have hy : y < 0 := not_le.1 (mt nearest_nonneg hneg)
  have habs : |y| ≤ |x| := by
    rw [abs_of_neg hy, abs_of_neg (h.trans_lt hy)]
    exact neg_le_neg h
  exact absurd (log_nearest_le_of_abs_le hp hy.ne habs) (not_le.2 hlog)

/-- What is rounded once keeps the order of the exact numbers. -/
theorem RoundsOnce.value_le (h : Manageable p m) (hx : RoundsOnce p m x result)
    (hy : RoundsOnce p m y result') (hxy : x ≤ y) (hu : result = .ok u) (hv : result' = .ok v) :
    u.value ≤ v.value := by
  have hp := h.precision_pos
  obtain ⟨-, hfault⟩ | ⟨hlow, u', hu', hvalue⟩ | ⟨⟨hge, -⟩, u', hu', hvalue⟩ := hx.outcome h
  · cases hu.symm.trans hfault
  · cases hu.symm.trans hu'
    obtain ⟨-, hfault⟩ | ⟨-, v', hv', hvalue'⟩ | ⟨⟨hge', -⟩, v', hv', hvalue'⟩ := hy.outcome h
    · cases hv.symm.trans hfault
    · cases hv.symm.trans hv'
      rw [hvalue, hvalue']
    · cases hv.symm.trans hv'
      rw [hvalue, hvalue']
      exact nearest_nonneg_of_log_lt hp hxy (by omega)
  · cases hu.symm.trans hu'
    obtain ⟨-, hfault⟩ | ⟨hlow', v', hv', hvalue'⟩ | ⟨-, v', hv', hvalue'⟩ := hy.outcome h
    · cases hv.symm.trans hfault
    · cases hv.symm.trans hv'
      rw [hvalue, hvalue']
      -- the mirror image: the opposite of `y` is too small to be kept, and that of `x` is not
      have hopposite := nearest_nonneg_of_log_lt hp (neg_le_neg hxy)
        (by rw [nearest_neg, nearest_neg, abs_neg, abs_neg]; omega)
      rw [nearest_neg] at hopposite
      exact neg_nonneg.1 hopposite
    · cases hv.symm.trans hv'
      rw [hvalue, hvalue']
      exact nearest_mono hp hxy

theorem RoundsOnce.notAbove (h : Manageable p m) (hx : RoundsOnce p m x result)
    (hy : RoundsOnce p m y result') (hxy : x ≤ y) : NotAbove result result' := by
  intro u v hu hv
  rw [(hx.moderate h hu).le_iff (hy.moderate h hv)]
  exact hx.value_le h hy hxy hu hv

/-- A number of larger magnitude than one without result has none either. -/
theorem RoundsOnce.eq_overflow_of_abs_le (h : Manageable p m) (hx : RoundsOnce p m x result)
    (hy : RoundsOnce p m y result') (hxy : |x| ≤ |y|) (hresult : result = .error .overflow) :
    result' = .error .overflow := by
  have hm := h.maxExponent_pos
  have hhigh := (hx.eq_overflow_iff h).1 hresult
  have hx0 : x ≠ 0 := by
    rintro rfl
    rw [nearest_zero, abs_zero, Int.log_zero_right] at hhigh
    omega
  exact (hy.eq_overflow_iff h).2 (hhigh.trans_le (log_nearest_le_of_abs_le h.precision_pos hx0 hxy))

/-! ## Operations -/

theorem roundsOnce_round (limits : Limits) (ha : a.Moderate) :
    RoundsOnce limits.precision limits.maxExponent a.value (a.round limits) :=
  ha.roomy.roundsOnce rfl

/-- The magnitude of a mean is at most that of the operand further from zero. -/
private theorem abs_mean_le (x y : ℚ) : |(x + y) / 2| ≤ |min x y| ∨ |(x + y) / 2| ≤ |max x y| := by
  have hlow := min_le_max (a := x) (b := y)
  rw [← min_add_max]
  rcases le_total 0 (min x y + max x y) with hsum | hsum
  · right
    rw [abs_of_nonneg (by linarith), abs_of_nonneg (by linarith)]
    linarith
  · left
    rw [abs_of_nonpos (by linarith), abs_of_nonpos (by linarith)]
    linarith

/-- A mean has a value wherever the smaller and the larger operand can be rounded, and lies between
them. -/
private theorem exists_average_between (limits : Limits) (ha : a.Moderate) (hb : b.Moderate)
    {low high : Decimal} (hlow : smaller limits a b = .ok low)
    (hhigh : larger limits a b = .ok high) :
    ∃ mean, average limits a b = .ok mean ∧ low.le mean = true ∧ mean.le high = true := by
  have h := limits.manageable
  have hsmaller := roundsOnce_smaller limits ha hb
  have hlarger := roundsOnce_larger limits ha hb
  have haverage := roundsOnce_average limits ha hb
  have hbetween : min a.value b.value ≤ (a.value + b.value) / 2 ∧
      (a.value + b.value) / 2 ≤ max a.value b.value := by
    have hle := min_le_max (a := a.value) (b := b.value)
    rw [← min_add_max a.value]
    constructor <;> linarith
  cases hmean : average limits a b with
  | error fault =>
      rw [haverage.fault_eq h hmean] at hmean
      rcases abs_mean_le a.value b.value with habs | habs
      · cases hlow.symm.trans (haverage.eq_overflow_of_abs_le h hsmaller habs hmean)
      · cases hhigh.symm.trans (haverage.eq_overflow_of_abs_le h hlarger habs hmean)
  | ok mean =>
      exact ⟨mean, rfl, hsmaller.notAbove h haverage hbetween.1 low mean hlow hmean,
        haverage.notAbove h hlarger hbetween.2 mean high hmean hhigh⟩

/-- Larger operands give no smaller results, where there are results: rounded numbers, sums,
differences with a smaller subtrahend, means, and products and quotients with a positive number.  A
number of larger magnitude than one that overflows overflows.  And a mean lies between the smaller
and the larger operand, and exists if these do. -/
theorem arithmetic_monotone (limits : Limits) (ha : a.Moderate) (ha' : a'.Moderate)
    (hb : b.Moderate) (hb' : b'.Moderate) (hc : c.Moderate) :
    (a.le a' → NotAbove (a.round limits) (a'.round limits)) ∧
      (a.le a' → b.le b' →
        NotAbove (add limits a b) (add limits a' b') ∧
          NotAbove (sub limits a b') (sub limits a' b) ∧
          NotAbove (average limits a b) (average limits a' b')) ∧
      (a.le a' → c.compare .zero = .gt →
        NotAbove (mul limits a c) (mul limits a' c) ∧
          NotAbove (div limits a c) (div limits a' c)) ∧
      (a.abs.le a'.abs → a.round limits = .error .overflow →
        a'.round limits = .error .overflow) ∧
      ∀ low high, smaller limits a b = .ok low → larger limits a b = .ok high →
        ∃ mean, average limits a b = .ok mean ∧ low.le mean ∧ mean.le high := by
  have h := limits.manageable
  rw [ha.le_iff ha', hb.le_iff hb', ha.abs.le_iff ha'.abs, value_abs, value_abs,
    hc.compare_eq (normal_zero h |>.moderate h), value_zero, compare_gt_iff_gt]
  refine ⟨fun hle => ?_, fun hle hle' => ⟨?_, ?_, ?_⟩, fun hle hpos => ⟨?_, ?_⟩, fun habs => ?_,
    fun low high => exists_average_between limits ha hb⟩
  · exact (roundsOnce_round limits ha).notAbove h (roundsOnce_round limits ha') hle
  · exact (roundsOnce_add limits ha hb).notAbove h (roundsOnce_add limits ha' hb')
      (add_le_add hle hle')
  · exact (roundsOnce_sub limits ha hb').notAbove h (roundsOnce_sub limits ha' hb)
      (sub_le_sub hle hle')
  · exact (roundsOnce_average limits ha hb).notAbove h (roundsOnce_average limits ha' hb')
      (by linarith)
  · exact (roundsOnce_mulTo ha hc).notAbove h (roundsOnce_mulTo ha' hc)
      (mul_le_mul_of_nonneg_right hle hpos.le)
  · have hne : c.coefficient ≠ 0 := (value_pos_iff.1 hpos).ne'
    exact (roundsOnce_div limits ha hc hne).notAbove h (roundsOnce_div limits ha' hc hne)
      (div_le_div_of_nonneg_right hle hpos.le)
  · exact (roundsOnce_round limits ha).eq_overflow_of_abs_le h (roundsOnce_round limits ha') habs

/-- The first sum is formed with a stand-in and the second is written out, and their order is kept,
as it is between the two quotients by three.  A mean stays between its operands, though one of them
is too small to be seen in it. -/
theorem stand_in_below_written_sum :
    (⟨1, 60⟩ : Decimal).Moderate ∧ (⟨2, 60⟩ : Decimal).Moderate ∧ (⟨-1, 0⟩ : Decimal).Moderate ∧
      (⟨1, 34⟩ : Decimal).Moderate ∧ (ofInt 3).Moderate ∧ (⟨1, 60⟩ : Decimal).le ⟨2, 60⟩ ∧
      (⟨-1, 0⟩ : Decimal).le ⟨1, 34⟩ ∧ (ofInt 3).compare .zero = .gt ∧
      (⟨1000000000000000000000000000, 33⟩ : Decimal).le ⟨200000000000000000000000001, 34⟩ ∧
      (⟨3333333333333333333333333333, 32⟩ : Decimal).le ⟨6666666666666666666666666667, 32⟩ ∧
      ∃ mean, average .default ⟨1, 60⟩ ⟨-1, 0⟩ = .ok mean ∧ (⟨-1, 0⟩ : Decimal).le mean ∧
        mean.le ⟨1, 60⟩ := by
  have hone : (⟨1, 60⟩ : Decimal).Moderate := ⟨by decide, by decide, by decide⟩
  have htwo : (⟨2, 60⟩ : Decimal).Moderate := ⟨by decide, by decide, by decide⟩
  have hsmall : (⟨-1, 0⟩ : Decimal).Moderate := ⟨by decide, by decide, by decide⟩
  have hvisible : (⟨1, 34⟩ : Decimal).Moderate := ⟨by decide, by decide, by decide⟩
  have hthree : (ofInt 3).Moderate := ⟨by decide, by decide, by decide⟩
  obtain ⟨-, hsums, hproducts, -, hbetween⟩ :=
    arithmetic_monotone .default hone htwo hsmall hvisible hthree
  have hsum := (hsums (by decide) (by decide)).1 ⟨1000000000000000000000000000, 33⟩
    ⟨200000000000000000000000001, 34⟩ (by decide) (by decide)
  have hquotient := (hproducts (by decide) (by decide)).2 ⟨3333333333333333333333333333, 32⟩
    ⟨6666666666666666666666666667, 32⟩ (by decide) (by decide)
  exact ⟨hone, htwo, hsmall, hvisible, hthree, by decide, by decide, by decide, hsum, hquotient,
    hbetween _ _ (by decide) (by decide)⟩

end Decimal

end Reckon
