import Reckon.Proofs.Decimal.FractionalPower
import Reckon.Proofs.Decimal.PowerAccuracy

/-!
# Powers with huge exponents

Of the exponents of magnitude `10 ^ 20` and more only those with a fraction are worked off, and of
those only the ones below `10 ^ 21` (`WorkedOff`).  With any other exponent the power is compared
with one, by way of its base, and put above the range or below it on that alone
(`comparedWithOne_pow`).  The others go wrong near the ends of the range only (`lostAtEnds_pow`).

Where the base is far enough from one the power does lie there: a base that differs from one by
`d` has a logarithm of about `d`, and as soon as the exponent makes more than `3 * (m + 1)` of that,
the power is beyond `10 ^ (m + 1)` or its reciprocal (`zpow_le_rpow_of_far`).  Nearer to one a power
may be an ordinary number, and then it is lost: that of `1 + 10 ^ (-20)` with the exponent `10 ^ 20`
is less than three (`power_near_one_lost`).
-/

namespace Reckon

open Series

/-! ## Logarithms near one -/

/-- Near one the logarithm is not much smaller than the difference from one, and farther away it is
at least a fifth. -/
private theorem le_abs_log {v : ℝ} (hv : 0 < v) :
    4 / 5 * |v - 1| ≤ |Real.log v| ∨ 1 / 5 ≤ |Real.log v| := by
  rcases le_total v 1 with hle | hge
  · left
    have habove := Real.log_le_sub_one_of_pos hv
    rw [abs_of_nonpos (by linarith : v - 1 ≤ 0), abs_of_nonpos (by linarith : Real.log v ≤ 0)]
    linarith
  · have hbelow := Real.one_sub_inv_le_log_of_pos hv
    have hinv : v * v⁻¹ = 1 := mul_inv_cancel₀ hv.ne'
    have hpos : 0 < v⁻¹ := inv_pos.2 hv
    rw [abs_of_nonneg (by linarith : 0 ≤ v - 1), abs_of_nonneg (Real.log_nonneg hge)]
    rcases le_total v (5 / 4) with hnear | hdistant
    · left
      have hsplit : 1 - v⁻¹ = (v - 1) * v⁻¹ := by rw [sub_mul, hinv, one_mul]
      have hshare : 4 / 5 ≤ v⁻¹ := by nlinarith
      nlinarith
    · right
      have hshare : v⁻¹ ≤ 4 / 5 := by nlinarith
      linarith

/-- So a huge exponent makes more of it than a number of logarithms of ten that is not as huge. -/
private theorem mul_log_ten_le {v y : ℝ} {n : ℤ} (hv : 0 < v) (hy : 10 ^ 20 ≤ |y|)
    (hn : (n : ℝ) ≤ 10 ^ 18) (hn0 : 0 ≤ n) (hfar : 3 * (n : ℝ) ≤ |y| * |v - 1|) :
    n * Real.log 10 ≤ |y| * |Real.log v| := by
  have hnonneg : (0 : ℝ) ≤ n := by exact_mod_cast hn0
  have hten : n * Real.log 10 ≤ n * (12 / 5) := mul_le_mul_of_nonneg_left log_ten_mem.2 hnonneg
  rcases le_abs_log hv with hnear | hdistant
  · have hscaled := mul_le_mul_of_nonneg_left hnear (abs_nonneg y)
    linarith
  · have hscaled := mul_le_mul_of_nonneg_right hy (abs_nonneg (Real.log v))
    linarith

/-- A huge power above one is beyond `10 ^ n` when its base is far enough from one. -/
theorem zpow_le_rpow_of_far {v y : ℝ} {n : ℤ} (hv : 0 < v) (hy : 10 ^ 20 ≤ |y|)
    (hn : (n : ℝ) ≤ 10 ^ 18) (hn0 : 0 ≤ n) (hfar : 3 * (n : ℝ) ≤ |y| * |v - 1|)
    (hgrows : 1 < v ^ y) : (10 : ℝ) ^ n ≤ v ^ y := by
  have hpower := Real.rpow_pos_of_pos hv y
  have hpositive := Real.log_pos hgrows
  rw [Real.zpow_le_iff_le_log (by norm_num) hpower]
  rw [Real.log_rpow hv] at hpositive ⊢
  rw [← abs_of_pos hpositive, abs_mul]
  exact mul_log_ten_le hv hy hn hn0 hfar

/-- Below one it is as far down. -/
theorem rpow_le_zpow_of_far {v y : ℝ} {n : ℤ} (hv : 0 < v) (hy : 10 ^ 20 ≤ |y|)
    (hn : (n : ℝ) ≤ 10 ^ 18) (hn0 : 0 ≤ n) (hfar : 3 * (n : ℝ) ≤ |y| * |v - 1|)
    (hfalls : v ^ y < 1) : v ^ y ≤ (10 : ℝ) ^ (-n) := by
  have hpower := Real.rpow_pos_of_pos hv y
  have hreciprocal : v ^ (-y) = (v ^ y)⁻¹ := Real.rpow_neg hv.le y
  have hlarge := zpow_le_rpow_of_far hv (abs_neg y ▸ hy) hn hn0 (abs_neg y ▸ hfar)
    (hreciprocal ▸ (one_lt_inv₀ hpower).2 hfalls)
  rw [hreciprocal, le_inv_comm₀ (by positivity) hpower, ← zpow_neg] at hlarge
  exact hlarge

/-- The exponential of a number lies beyond the powers of ten below its decade. -/
private theorem zpow_lt_exp {t : ℝ} {k n : ℤ} (h : |t - k * Real.log 10| ≤ 2) (hn : n < k) :
    (10 : ℝ) ^ n < Real.exp t := by
  have hten := log_ten_mem.1
  have hnext : (n : ℝ) + 1 ≤ k := by exact_mod_cast hn
  have hscaled := mul_le_mul_of_nonneg_right hnext (by linarith : 0 ≤ Real.log 10)
  rw [ten_zpow_eq_exp, Real.exp_lt_exp]
  linarith [(abs_le.1 h).1]

private theorem exp_lt_zpow {t : ℝ} {k n : ℤ} (h : |t - k * Real.log 10| ≤ 2) (hn : k < n) :
    Real.exp t < (10 : ℝ) ^ n := by
  have hopposite : |-t - (-k : ℤ) * Real.log 10| ≤ 2 := by
    rw [← abs_neg] at h
    convert h using 2
    push_cast
    ring
  have hlarge := zpow_lt_exp hopposite (n := -n) (by omega)
  rw [Real.exp_neg, zpow_neg] at hlarge
  exact (inv_lt_inv₀ (by positivity) (Real.exp_pos t)).1 hlarge

/-- Only one has powers that are one. -/
private theorem rpow_ne_one {v y : ℝ} (hv : 0 < v) (hv1 : v ≠ 1) (hy : y ≠ 0) : v ^ y ≠ 1 := by
  intro hone
  have hlog := Real.log_rpow hv y
  rw [hone, Real.log_one] at hlog
  exact mul_ne_zero hy (Real.log_ne_zero_of_pos_of_ne_one hv hv1) hlog.symm

/-! ## The ends of the range -/

/-- The number lies above the range, or below its end by a share of the last place. -/
def NearlyAbove (p : ℕ) (m : ℤ) (x : ℝ) : Prop :=
  ((10 ^ (m + 1) * (1 - 1 / 10 ^ p) : ℚ) : ℝ) < x

/-- The number lies below the range, or above its end by a share of the last place. -/
def NearlyBelow (p : ℕ) (m : ℤ) (x : ℝ) : Prop :=
  x < ((10 ^ (-m) * (1 + 1 / 10 ^ p) : ℚ) : ℝ)

section

variable {p : ℕ} {m : ℤ} {x : ℝ}

theorem nearlyAbove_iff : NearlyAbove p m x ↔ 10 ^ (m + 1) * (1 - 1 / 10 ^ p) < x := by
  unfold NearlyAbove
  push_cast
  rfl

theorem nearlyBelow_iff : NearlyBelow p m x ↔ x < 10 ^ (-m) * (1 + 1 / 10 ^ p) := by
  unfold NearlyBelow
  push_cast
  rfl

private theorem one_div_le_tenth (hp : 0 < p) : (1 : ℝ) / 10 ^ p ≤ 1 / 10 :=
  one_div_le_one_div_of_le (by norm_num) (le_self_pow₀ (by norm_num) hp.ne')

theorem NearlyAbove.one_lt (hp : 0 < p) (hm : 0 < m) (h : NearlyAbove p m x) : 1 < x := by
  have hshare := one_div_le_tenth hp
  have hten : (10 : ℝ) ^ (2 : ℤ) ≤ 10 ^ (m + 1) := zpow_le_zpow_right₀ (by norm_num) (by omega)
  norm_num at hten
  rw [nearlyAbove_iff] at h
  nlinarith

theorem NearlyBelow.lt_one (hp : 0 < p) (hm : 0 < m) (h : NearlyBelow p m x) : x < 1 := by
  have hshare := one_div_le_tenth hp
  have hten : (10 : ℝ) ^ (-m) ≤ 10 ^ (-1 : ℤ) := zpow_le_zpow_right₀ (by norm_num) (by omega)
  rw [zpow_neg_one] at hten
  have hpos : (0 : ℝ) < 10 ^ (-m) := by positivity
  rw [nearlyBelow_iff] at h
  nlinarith

theorem nearlyAbove_of_zpow_lt {n : ℤ} (hn : m < n) (h : 10 ^ n < x) : NearlyAbove p m x := by
  have hten : (10 : ℝ) ^ (m + 1) ≤ 10 ^ n := zpow_le_zpow_right₀ (by norm_num) (by omega)
  have hshare : (0 : ℝ) ≤ 1 / 10 ^ p := by positivity
  rw [nearlyAbove_iff]
  exact (mul_le_of_le_one_right (by positivity) (by linarith)).trans_lt (hten.trans_lt h)

theorem nearlyBelow_of_lt_zpow {n : ℤ} (hn : n ≤ -m) (h : x < 10 ^ n) : NearlyBelow p m x := by
  have hten : (10 : ℝ) ^ n ≤ 10 ^ (-m) := zpow_le_zpow_right₀ (by norm_num) hn
  have hshare : (0 : ℝ) ≤ 1 / 10 ^ p := by positivity
  rw [nearlyBelow_iff]
  exact (h.trans_le hten).trans_le (le_mul_of_one_le_right (by positivity) (by linarith))

end

namespace Decimal

variable {a b r : Decimal}

/-! ## Exponents that are not worked off -/

/-- The exponent has a fraction, and at most twenty-one digits before the point: the power is worked
off by logarithm and exponential. -/
def WorkedOff (b : Decimal) : Prop := (¬∃ n : ℤ, b.value = n) ∧ |b.value| < 10 ^ 21

/-- What is returned for the power `x` when it is compared with one only. -/
inductive ComparedWithOne (x : ℝ) : Except ArithmeticFault Decimal → Prop
  | above (hx : 1 < x) : ComparedWithOne x (.error .overflow)
  | below (hx : x < 1) : ComparedWithOne x (.ok .zero)
  | unit {r : Decimal} (hx : x = 1) (hr : |r.value| = 1) : ComparedWithOne x (.ok r)

namespace ComparedWithOne

variable {x : ℝ} {result : Except ArithmeticFault Decimal}

theorem one_lt_of_error (h : ComparedWithOne x result) {fault : ArithmeticFault}
    (hr : result = .error fault) : fault = .overflow ∧ 1 < x := by
  cases h with
  | above hx =>
      cases hr
      exact ⟨rfl, hx⟩
  | below hx => cases hr
  | unit hx hone => cases hr

theorem lt_one_of_eq_zero (h : ComparedWithOne x result) (hr : result = .ok r)
    (hr0 : r.value = 0) : x < 1 := by
  cases h with
  | above hx => cases hr
  | below hx => exact hx
  | unit hx hone =>
      cases hr
      rw [hr0, abs_zero] at hone
      exact absurd hone zero_ne_one

theorem eq_overflow_iff (h : ComparedWithOne x result) : result = .error .overflow ↔ 1 < x := by
  refine ⟨fun hr => (h.one_lt_of_error hr).2, fun hlarge => ?_⟩
  cases h with
  | above hx => rfl
  | below hx => exact absurd hlarge hx.not_gt
  | unit hx hone => exact absurd hlarge hx.le.not_gt

theorem eq_zero_iff (h : ComparedWithOne x result) : result = .ok .zero ↔ x < 1 := by
  refine ⟨fun hr => h.lt_one_of_eq_zero hr value_zero, fun hsmall => ?_⟩
  cases h with
  | above hx => exact absurd hsmall hx.not_gt
  | below hx => rfl
  | unit hx hone => exact absurd hsmall hx.ge.not_gt

end ComparedWithOne

/-- A power is larger than one when base and exponent lie on the same side of one and zero. -/
private theorem grows_iff {v : ℚ} (hv : 0 < v) (hv1 : v ≠ 1) (hb0 : b.value ≠ 0) :
    ((compare v 1 == .gt) != b.isNegative) = true ↔ 1 < (v : ℝ) ^ (b.value : ℝ) := by
  have hnegative : b.isNegative = true ↔ b.value < 0 := by rw [isNegative_iff, value_lt_zero_iff]
  have hpositive : b.isNegative = false ↔ 0 < b.value := by
    rw [Bool.eq_false_iff, ne_eq, hnegative, not_lt, hb0.symm.le_iff_lt]
  rw [Real.one_lt_rpow_iff_of_pos (by exact_mod_cast hv)]
  norm_cast
  rcases lt_or_gt_of_ne hv1 with hlt | hgt
  · rw [compare_lt_iff_lt.2 hlt]
    simp [hnegative, hlt, hlt.not_gt]
  · rw [compare_gt_iff_gt.2 hgt]
    simp [hpositive, hgt, hgt.not_gt]

private theorem comparedWithOne_powOutOfRange {grows : Bool} {x : ℝ} (hgrows : grows = true ↔ 1 < x)
    (hx : x ≠ 1) : ComparedWithOne x (powOutOfRange grows) := by
  unfold powOutOfRange
  split
  · next hlarge => exact .above (hgrows.1 hlarge)
  · next hsmall => exact .below (lt_of_le_of_ne (not_lt.1 (mt hgrows.2 hsmall)) hx)

theorem comparedWithOne_powHuge (ha : a.Moderate) (ha0 : a.value ≠ 0) (hb0 : b.value ≠ 0) :
    ComparedWithOne (|(a.value : ℝ)| ^ (b.value : ℝ)) (powHuge a b) := by
  have hv : 0 < |a.value| := abs_pos.2 ha0
  rw [← Rat.cast_abs]
  rcases eq_or_ne |a.value| 1 with hone | hne
  · unfold powHuge
    rw [compare_abs_one ha, compare_eq_iff_eq.2 hone]
    refine .unit (by rw [hone, Rat.cast_one, Real.one_rpow]) ?_
    split <;> simp
  · have hout : powHuge a b = powOutOfRange ((compare |a.value| 1 == .gt) != b.isNegative) := by
      unfold powHuge powOutOfRange
      rw [compare_abs_one ha]
      rcases lt_or_gt_of_ne hne with hlt | hgt
      · rw [compare_lt_iff_lt.2 hlt]
        cases b.isNegative <;> rfl
      · rw [compare_gt_iff_gt.2 hgt]
        cases b.isNegative <;> rfl
    rw [hout]
    exact comparedWithOne_powOutOfRange (grows_iff hv hne hb0)
      (rpow_ne_one (by exact_mod_cast hv) (by exact_mod_cast hne) (by exact_mod_cast hb0))

private theorem powFractional_of_ne_one (limits : Limits) (ha : a.Moderate) (hne : a.value ≠ 1) :
    powFractional limits a b =
      if 20 < b.adjustedExponent then
        powOutOfRange ((compare a.value 1 == .gt) != b.isNegative)
      else powByLogarithm limits ((compare a.value 1 == .gt) != b.isNegative) a b := by
  unfold powFractional
  rw [ha.compare_eq moderate_one, value_one]
  split
  · next hone => exact absurd (compare_eq_iff_eq.1 hone) hne
  · rfl

private theorem powFractional_of_eq_one (limits : Limits) (ha : a.Moderate) (hone : a.value = 1) :
    powFractional limits a b = .ok .one := by
  unfold powFractional
  rw [ha.compare_eq moderate_one, value_one, compare_eq_iff_eq.2 hone]

theorem comparedWithOne_powFractional (limits : Limits) (ha : a.Moderate) (ha0 : 0 < a.value)
    (hb0 : b.value ≠ 0) (hhuge : 20 < b.adjustedExponent) :
    ComparedWithOne ((a.value : ℝ) ^ (b.value : ℝ)) (powFractional limits a b) := by
  rcases eq_or_ne a.value 1 with hone | hne
  · rw [powFractional_of_eq_one limits ha hone, hone, Rat.cast_one, Real.one_rpow]
    exact .unit rfl (by simp)
  · rw [powFractional_of_ne_one limits ha hne, if_pos hhuge]
    exact comparedWithOne_powOutOfRange (grows_iff ha0 hne hb0)
      (rpow_ne_one (by exact_mod_cast ha0) (by exact_mod_cast hne) (by exact_mod_cast hb0))

/-- With a huge exponent that is not worked off, the power is compared with one. -/
theorem comparedWithOne_pow (limits : Limits) (ha : a.Moderate) (hb : b.Moderate)
    (ha0 : a.value ≠ 0) (hreal : 0 < a.value ∨ ∃ n : ℤ, b.value = n) (hhuge : 10 ^ 20 ≤ |b.value|)
    (hshort : ¬WorkedOff b) :
    ComparedWithOne (|(a.value : ℝ)| ^ (b.value : ℝ)) (pow limits a b) := by
  have hb0 : b.value ≠ 0 := by
    intro hzero
    rw [hzero, abs_zero] at hhuge
    norm_num at hhuge
  by_cases hwhole : ∃ n : ℤ, b.value = n
  · obtain ⟨n, hn⟩ := hwhole
    have hmany : ¬n.natAbs < 10 ^ 20 := by
      rw [hn, ← Int.cast_abs, Int.abs_eq_natAbs] at hhuge
      exact not_lt.2 (by exact_mod_cast hhuge)
    have hn0 : n ≠ 0 := by
      rintro rfl
      exact hmany (by norm_num)
    rw [pow_eq_of_integer limits hb ha0 hn0 hn, if_neg hmany]
    exact comparedWithOne_powHuge ha ha0 hb0
  · have hpos := hreal.resolve_right hwhole
    have hmore : 10 ^ 21 ≤ |b.value| := not_lt.1 fun hless => hshort ⟨hwhole, hless⟩
    have hleading : 20 < b.adjustedExponent := by
      have hlt : (10 : ℚ) ^ (21 : ℤ) < 10 ^ (b.leading + 1) :=
        lt_of_le_of_lt (by exact_mod_cast hmore) b.abs_value_lt
      have := ten_zpow_lt_iff.1 hlt
      rw [adjustedExponent_eq hb.roomy]
      omega
    rw [pow_eq_powFractional limits hb hpos hwhole, abs_of_pos (by exact_mod_cast hpos)]
    exact comparedWithOne_powFractional limits ha hpos hb0 hleading

/-! ## Exponents that are worked off -/

/-- For the number `x` there is no result, or zero, only beyond the ends of the range or near
them. -/
structure LostAtEnds (p : ℕ) (m : ℤ) (x : ℝ) (result : Except ArithmeticFault Decimal) : Prop where
  of_error : ∀ {fault}, result = .error fault → fault = .overflow ∧ NearlyAbove p m x
  of_eq_zero : ∀ {r}, result = .ok r → r.value = 0 → NearlyBelow p m x

section

variable {p : ℕ} {m : ℤ} {result : Except ArithmeticFault Decimal}

theorem RoundsOnce.lostAtEnds {x : ℝ} {y : ℚ} (h : Manageable p m) (hx : 0 < x)
    (hclose : Close p x y) (hresult : RoundsOnce p m y result) : LostAtEnds p m x result where
  of_error hr := by
    have hlarge := hresult.lt_abs_of_close h hclose hr
    rwa [abs_of_pos hx, ← nearlyAbove_iff] at hlarge
  of_eq_zero hr hr0 := by
    have hsmall := hresult.abs_lt_of_close h hclose hx.ne' hr hr0
    rwa [abs_of_pos hx, ← nearlyBelow_iff] at hsmall

/-- A decade beyond the range by more than two leaves no doubt on which side the power lies. -/
theorem lostAtEnds_powOutOfRange {t : ℝ} {k : ℤ} (hk : m + 2 < k.natAbs)
    (ht : |t - k * Real.log 10| ≤ 2) {grows : Bool} (hgrows : grows = true ↔ 1 < Real.exp t) :
    LostAtEnds p m (Real.exp t) (powOutOfRange grows) := by
  unfold powOutOfRange
  split
  · next hlarge =>
    refine ⟨fun hr => ?_, nofun⟩
    cases hr
    have hhigh : m + 2 < k := by
      by_contra hlow
      have hbelow := exp_lt_zpow ht (n := 0) (by omega)
      rw [zpow_zero] at hbelow
      exact hbelow.not_gt (hgrows.1 hlarge)
    exact ⟨rfl, nearlyAbove_of_zpow_lt (by omega) (zpow_lt_exp ht hhigh)⟩
  · next hsmall =>
    refine ⟨nofun, fun _ _ => ?_⟩
    have hlow : k < -(m + 2) := by
      by_contra hhigh
      have habove := zpow_lt_exp ht (n := 0) (by omega)
      rw [zpow_zero] at habove
      exact hsmall (hgrows.2 habove)
    exact nearlyBelow_of_lt_zpow (by omega) (exp_lt_zpow ht hlow)

end

theorem lostAtEnds_powByLogarithm (limits : Limits) (ha : a.Moderate) (ha0 : 0 < a.value)
    (hb : b.Moderate) (hsmall : b.adjustedExponent ≤ 20) {grows : Bool}
    (hgrows : grows = true ↔ 1 < (a.value : ℝ) ^ (b.value : ℝ)) :
    LostAtEnds limits.precision limits.maxExponent ((a.value : ℝ) ^ (b.value : ℝ))
      (powByLogarithm limits grows a b) := by
  have h := limits.manageable
  have hreal : (0 : ℝ) < a.value := by exact_mod_cast ha0
  have hexp : (a.value : ℝ) ^ (b.value : ℝ) = Real.exp (b.value * Real.log a.value) := by
    rw [Real.rpow_def_of_pos hreal, mul_comm]
  obtain ⟨hpos, hlimit⟩ := powPlaces_mem limits ha hsmall
  have hclose := close_power limits ha ha0 hb hsmall rfl rfl
  have hdecade := abs_log_power_sub_le limits ha ha0 hb hsmall rfl rfl
  unfold powByLogarithm
  dsimp only
  generalize powPlaces limits.precision a b = places at *
  generalize shiftTo (ln places a * b.coefficient) b.exponent = product at *
  split
  · next hrange =>
    have hm := h.maxExponent_le
    unfold largestMaxExponent at hm
    rw [Register.wrap_eq (by omega) (by omega)]
    have hrounds := (roomy_mantissa limits hpos hlimit hrange).roundsOnce
      (p := limits.precision) (m := limits.maxExponent) rfl
    exact hrounds.lostAtEnds h (Real.rpow_pos_of_pos hreal _) hclose
  · next hrange =>
    rw [hexp] at hgrows ⊢
    exact lostAtEnds_powOutOfRange (not_le.1 hrange) hdecade hgrows

/-- A power that is worked off is lost at the ends of the range only. -/
theorem lostAtEnds_pow (limits : Limits) (ha : a.Moderate) (hb : b.Moderate) (ha0 : 0 < a.value)
    (hwork : WorkedOff b) :
    LostAtEnds limits.precision limits.maxExponent ((a.value : ℝ) ^ (b.value : ℝ))
      (pow limits a b) := by
  obtain ⟨hfraction, hless⟩ := hwork
  have hb0 : b.value ≠ 0 := fun hzero => hfraction ⟨0, by rw [hzero, Int.cast_zero]⟩
  have hsmall : b.adjustedExponent ≤ 20 := by
    have hlt : (10 : ℚ) ^ b.leading < 10 ^ (21 : ℤ) :=
      (zpow_leading_le (by simpa using hb0)).trans_lt (by exact_mod_cast hless)
    have := ten_zpow_lt_iff.1 hlt
    rw [adjustedExponent_eq hb.roomy]
    omega
  rw [pow_eq_powFractional limits hb ha0 hfraction]
  rcases eq_or_ne a.value 1 with hone | hne
  · rw [powFractional_of_eq_one limits ha hone]
    refine ⟨nofun, fun hr hr0 => ?_⟩
    cases hr
    exact absurd hr0 (by simp)
  · rw [powFractional_of_ne_one limits ha hne, if_neg (not_lt.2 hsmall)]
    exact lostAtEnds_powByLogarithm limits ha ha0 hb hsmall (grows_iff ha0 hne hb0)

/-! ## All huge exponents -/

/-- With an exponent of magnitude `10 ^ 20` or more a power is compared with one, or worked off.  It
fails only as an overflow and only when it is larger than one, and it is zero only when it is
smaller.  When it is worked off it is then at the end of the range, and when the base is far enough
from one it lies beyond the range by a whole place. -/
theorem pow_huge_range (limits : Limits) (ha : a.Moderate) (hb : b.Moderate) (ha0 : a.value ≠ 0)
    (hreal : 0 < a.value ∨ ∃ n : ℤ, b.value = n) (hhuge : 10 ^ 20 ≤ |b.value|) :
    let x : ℝ := |(a.value : ℝ)| ^ (b.value : ℝ)
    let far : Prop := 3 * (limits.maxExponent + 1) ≤ |b.value| * |(|a.value| - 1)|
    (¬WorkedOff b →
        (pow limits a b = .error .overflow ↔ 1 < x) ∧ (pow limits a b = .ok .zero ↔ x < 1)) ∧
      (∀ fault, pow limits a b = .error fault → fault = .overflow ∧ 1 < x ∧
        (WorkedOff b → NearlyAbove limits.precision limits.maxExponent x) ∧
        (far → 10 ^ (limits.maxExponent + 1) ≤ x)) ∧
      ∀ r, pow limits a b = .ok r → r.value = 0 → x < 1 ∧
        (WorkedOff b → NearlyBelow limits.precision limits.maxExponent x) ∧
        (far → x ≤ 10 ^ (-(limits.maxExponent + 1))) := by
  intro x far
  have hp := limits.precision_pos
  have hm := limits.maxExponent_pos
  have hv : 0 < |(a.value : ℝ)| := abs_pos.2 (by exact_mod_cast ha0)
  have hy : (10 : ℝ) ^ 20 ≤ |(b.value : ℝ)| := by
    have hcast := (Rat.cast_le (K := ℝ)).2 hhuge
    push_cast at hcast
    exact hcast
  have hn : ((limits.maxExponent + 1 : ℤ) : ℝ) ≤ 10 ^ 18 := by
    have hm' := limits.maxExponent_le
    unfold largestMaxExponent at hm'
    exact_mod_cast (by omega : limits.maxExponent + 1 ≤ 10 ^ 18)
  have hdistance : far →
      3 * ((limits.maxExponent + 1 : ℤ) : ℝ) ≤ |(b.value : ℝ)| * |(|(a.value : ℝ)| - 1)| := by
    intro hfar
    have hcast := (Rat.cast_le (K := ℝ)).2 hfar
    push_cast at hcast ⊢
    exact hcast
  have habove : 1 < x → far → (10 : ℝ) ^ (limits.maxExponent + 1) ≤ x := fun hone hfar =>
    zpow_le_rpow_of_far hv hy hn (by omega) (hdistance hfar) hone
  have hbelow : x < 1 → far → x ≤ (10 : ℝ) ^ (-(limits.maxExponent + 1)) := fun hone hfar =>
    rpow_le_zpow_of_far hv hy hn (by omega) (hdistance hfar) hone
  by_cases hwork : WorkedOff b
  · have hpos := hreal.resolve_right hwork.1
    have hlost := lostAtEnds_pow limits ha hb hpos hwork
    rw [← abs_of_pos (show (0 : ℝ) < a.value by exact_mod_cast hpos)] at hlost
    refine ⟨fun hshort => absurd hwork hshort, fun fault hr => ?_, fun r hr hr0 => ?_⟩
    · obtain ⟨hfault, hlarge⟩ := hlost.of_error hr
      have hone := hlarge.one_lt hp hm
      exact ⟨hfault, hone, fun _ => hlarge, habove hone⟩
    · have hsmall := hlost.of_eq_zero hr hr0
      have hone := hsmall.lt_one hp hm
      exact ⟨hone, fun _ => hsmall, hbelow hone⟩
  · have hcompared := comparedWithOne_pow limits ha hb ha0 hreal hhuge hwork
    refine ⟨fun _ => ⟨hcompared.eq_overflow_iff, hcompared.eq_zero_iff⟩, fun fault hr => ?_,
      fun r hr hr0 => ?_⟩
    · obtain ⟨hfault, hone⟩ := hcompared.one_lt_of_error hr
      exact ⟨hfault, hone, fun h => absurd h hwork, habove hone⟩
    · have hone := hcompared.lt_one_of_eq_zero hr hr0
      exact ⟨hone, fun h => absurd h hwork, hbelow hone⟩

/-- A difference from one in the tenth place is enough for a huge power to lie a whole place above
the default range. -/
theorem huge_power_of_tenth_place :
    (⟨10000000001, -10⟩ : Decimal).Moderate ∧ (⟨1, 20⟩ : Decimal).Moderate ∧
      0 < (⟨10000000001, -10⟩ : Decimal).value ∧ 10 ^ 20 ≤ |(⟨1, 20⟩ : Decimal).value| ∧
      pow .default ⟨10000000001, -10⟩ ⟨1, 20⟩ = .error .overflow ∧
      (10 : ℝ) ^ (Limits.default.maxExponent + 1) ≤
        |((⟨10000000001, -10⟩ : Decimal).value : ℝ)| ^ ((⟨1, 20⟩ : Decimal).value : ℝ) := by
  have hbase : (⟨10000000001, -10⟩ : Decimal).Moderate := ⟨by decide, by decide, by decide⟩
  have hexponent : (⟨1, 20⟩ : Decimal).Moderate := ⟨by decide, by decide, by decide⟩
  have hpositive : 0 < (⟨10000000001, -10⟩ : Decimal).value := value_pos_iff.2 (by decide)
  have hhuge : 10 ^ 20 ≤ |(⟨1, 20⟩ : Decimal).value| := by norm_num [value]
  have hpower : pow .default ⟨10000000001, -10⟩ ⟨1, 20⟩ = .error .overflow := by decide +kernel
  obtain ⟨-, herror, -⟩ := pow_huge_range .default hbase hexponent hpositive.ne' (Or.inl hpositive)
    hhuge
  obtain ⟨-, -, -, hfar⟩ := herror _ hpower
  refine ⟨hbase, hexponent, hpositive, hhuge, hpower, hfar ?_⟩
  have hm : Limits.default.maxExponent = 999999 := rfl
  rw [hm]
  norm_num [value]

/-! ## Bases too near to one -/

/-- The sequence that tends to `exp 1` stays below three. -/
private theorem one_add_inv_pow_lt_three {n : ℕ} (hn : 0 < n) : (1 + (n : ℚ)⁻¹) ^ n < 3 := by
  have hnpos : (0 : ℝ) < n := by exact_mod_cast hn
  have hstep : (1 : ℝ) + (n : ℝ)⁻¹ ≤ Real.exp (n : ℝ)⁻¹ := by
    rw [add_comm]
    exact Real.add_one_le_exp _
  have hreal : (1 + (n : ℝ)⁻¹) ^ n < 3 := by
    calc (1 + (n : ℝ)⁻¹) ^ n ≤ Real.exp (n : ℝ)⁻¹ ^ n := pow_le_pow_left₀ (by positivity) hstep n
      _ = Real.exp 1 := by rw [← Real.exp_nat_mul, mul_inv_cancel₀ hnpos.ne']
      _ < 3 := Real.exp_one_lt_three
  exact (Rat.cast_lt (K := ℝ)).1 (by push_cast; exact hreal)

/-- The power of `1 + 10 ^ (-20)` with the exponent `10 ^ 20` is said to be too large, and would be
rounded to a number of one digit before the point. -/
theorem power_near_one_lost :
    pow .default ⟨100000000000000000001, -20⟩ ⟨100000000000000000000, 0⟩ = .error .overflow ∧
      ¬Limits.default.maxExponent < Int.log 10 |nearest Limits.default.precision
        ((⟨100000000000000000001, -20⟩ : Decimal).value ^ (100000000000000000000 : ℕ))| := by
  refine ⟨by decide +kernel, fun hlarge => ?_⟩
  have hbase : (⟨100000000000000000001, -20⟩ : Decimal).value =
      1 + ((100000000000000000000 : ℕ) : ℚ)⁻¹ := by
    norm_num [value]
  have hpositive : 0 < (⟨100000000000000000001, -20⟩ : Decimal).value := by simp [value_pos_iff]
  have hsmall := one_add_inv_pow_lt_three (n := 100000000000000000000) (by norm_num)
  have hpower := pow_pos hpositive 100000000000000000000
  rw [← hbase] at hsmall
  generalize (⟨100000000000000000001, -20⟩ : Decimal).value ^ (100000000000000000000 : ℕ) = x at *
  have hm : (1 : ℤ) < Limits.default.maxExponent := by decide
  have habove := le_abs_of_lt_log_nearest one_pos (hm.trans hlarge)
  rw [abs_of_pos hpower, show Limits.default.precision = 28 from rfl] at habove
  norm_num at habove
  linarith

end Decimal

end Reckon
