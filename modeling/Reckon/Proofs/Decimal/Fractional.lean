import Reckon.Decimal.Power
import Reckon.Proofs.Decimal.Power

/-!
# Powers in normal form

A power with a fractional exponent is the rounding of a mantissa that the exponential series gives.
How large that mantissa is matters here only because it has to be short enough to be rounded, so
the bounds on the series are crude: no term of the logarithm's series exceeds its argument
(`abs_atanhFrom_le`), and a term of the exponential's is at most a fixed multiple of the one before
it (`abs_expFrom_le`).

With the other cases this gives that every power is in normal form (`normal_pow`).
-/

namespace Reckon

namespace Series

/-! ## The size of the series -/

theorem abs_atanhFrom_le {one square : ℤ} (hone : 0 < one) (hsquare : |square| ≤ one) :
    ∀ (terms : ℕ) (power : ℤ) (position : ℕ) (sum : ℤ),
      |atanhFrom one square terms power position sum| ≤ |sum| + terms * |power| := by
  intro terms
  induction terms with
  | zero => intro power position sum; simp [atanhFrom]
  | succ terms ih =>
      intro power position sum
      unfold atanhFrom
      split
      · have : 0 ≤ ((terms + 1 : ℕ) : ℤ) * |power| := by positivity
        omega
      · have hnext : |divHalfEven (power * square) one| ≤ |power| := by
          apply abs_divHalfEven_le hone
          rw [abs_mul, mul_comm]
          exact mul_le_mul_of_nonneg_right hsquare (abs_nonneg power)
        have hterm : |power.tdiv position| ≤ |power| := by
          rw [Int.abs_eq_natAbs, Int.abs_eq_natAbs, Int.natAbs_tdiv]
          exact_mod_cast Nat.div_le_self _ _
        calc |atanhFrom one square terms (divHalfEven (power * square) one) (position + 2)
              (sum + power.tdiv position)|
            ≤ |sum + power.tdiv position| + terms * |divHalfEven (power * square) one| := ih ..
          _ ≤ (|sum| + |power|) + terms * |power| := by
              gcongr
              exact (abs_add_le _ _).trans (by omega)
          _ = |sum| + ((terms + 1 : ℕ) : ℤ) * |power| := by
              push_cast
              ring

theorem le_atanhFrom {one square : ℤ} (hone : 0 < one) (hsquare : 0 ≤ square) :
    ∀ (terms : ℕ) {power : ℤ} (position : ℕ) (sum : ℤ), 0 ≤ power →
      sum ≤ atanhFrom one square terms power position sum := by
  intro terms
  induction terms with
  | zero => intro power position sum _; rfl
  | succ terms ih =>
      intro power position sum hpower
      unfold atanhFrom
      split
      · rfl
      · have hnext : 0 ≤ divHalfEven (power * square) one :=
          le_divHalfEven hone (by rw [mul_zero]; positivity)
        have hterm : 0 ≤ power.tdiv position := Int.tdiv_nonneg hpower (by positivity)
        exact (le_add_of_nonneg_right hterm).trans (ih _ _ hnext)

theorem unit_pos (places : ℕ) : 0 < unit places := by
  unfold unit
  exact_mod_cast pow10_pos places

/-- One, with any number of places that occurs, is a power of ten. -/
theorem unit_eq {places : ℕ} (hplaces : places ≤ 2 ^ 20) : unit places = 10 ^ places :=
  pow10_cast (by unfold largestPower; omega)

theorem ten_le_unit {places : ℕ} (hpos : 0 < places) (hplaces : places ≤ 2 ^ 20) :
    10 ≤ unit places := by
  rw [unit_eq hplaces]
  exact le_self_pow₀ (by norm_num) hpos.ne'

theorem three_mul_seriesLength_le {places : ℕ} (hplaces : places ≤ 2 ^ 20) :
    (3 * seriesLength places : ℤ) ≤ 10 ^ 7 := by
  unfold seriesLength
  norm_num
  omega

/-- No term of the inverse hyperbolic tangent is larger than the argument. -/
theorem abs_atanh_le (places : ℕ) {z : ℤ} (hz : |z| ≤ unit places) :
    |atanh places z| ≤ seriesLength places * |z| := by
  have hone := unit_pos places
  have hsquare : |divHalfEven (z * z) (unit places)| ≤ unit places := by
    apply abs_divHalfEven_le hone
    rw [abs_mul]
    exact mul_le_mul hz hz (abs_nonneg z) hone.le
  have hbound := abs_atanhFrom_le hone hsquare (seriesLength places) z 1 0
  rwa [abs_zero, zero_add] at hbound

theorem atanh_mem (places : ℕ) {z : ℤ} (hz : 0 ≤ z) (hle : z ≤ unit places) :
    z ≤ atanh places z ∧ atanh places z ≤ seriesLength places * z := by
  have hone := unit_pos places
  have hsquare : 0 ≤ divHalfEven (z * z) (unit places) :=
    le_divHalfEven hone (by rw [mul_zero]; positivity)
  unfold atanh
  dsimp only
  constructor
  · show z ≤ atanhFrom _ _ (2 * places + 9 + 1) z 1 0
    unfold atanhFrom
    split
    · omega
    · have hnext : 0 ≤ divHalfEven (z * divHalfEven (z * z) (unit places)) (unit places) :=
        le_divHalfEven hone (by rw [mul_zero]; positivity)
      have := le_atanhFrom hone hsquare (2 * places + 9) 3 (0 + z.tdiv (1 : ℕ)) hnext
      simpa using this
  · have hbound := abs_atanh_le places (z := z) (by rwa [abs_of_nonneg hz])
    rw [abs_of_nonneg hz] at hbound
    exact (le_abs_self _).trans hbound

/-- The logarithm of ten is positive, and not much larger than it should be. -/
theorem ln10_mem {places : ℕ} (hplaces : 0 < places) (hle : places ≤ 2 ^ 20) :
    0 < ln10 places ∧ ln10 places ≤ 3 * seriesLength places * unit places := by
  have hten := ten_le_unit hplaces hle
  obtain ⟨hlow, hhigh⟩ := atanh_mem places (z := unit places / 3) (by omega) (by omega)
  obtain ⟨hlow', hhigh'⟩ := atanh_mem places (z := unit places / 9) (by omega)
    (by omega)
  have hthird : (seriesLength places : ℤ) * (unit places / 3) * 3 ≤
      seriesLength places * unit places := by
    rw [mul_assoc]
    exact mul_le_mul_of_nonneg_left (by omega) (by positivity)
  have hninth : (seriesLength places : ℤ) * (unit places / 9) * 9 ≤
      seriesLength places * unit places := by
    rw [mul_assoc]
    exact mul_le_mul_of_nonneg_left (by omega) (by positivity)
  unfold ln10 ln2
  rw [mul_assoc]
  constructor <;> omega

theorem abs_expFrom_le (bound : ℤ) {one x : ℤ} (hone : 0 < one) (hbound : 1 ≤ bound)
    (hx : |x| ≤ bound * one) :
    ∀ (terms : ℕ) (term : ℤ) (position : ℕ) (sum : ℤ), 0 < position →
      |expFrom one x terms term position sum| ≤ |sum| + terms * (|term| * bound ^ terms) := by
  intro terms
  induction terms with
  | zero => intro term position sum _; simp [expFrom]
  | succ terms ih =>
      intro term position sum hposition
      unfold expFrom
      dsimp only
      -- the divisor only grows with the position
      have hnext : |divHalfEven (term * x) (one * position)| ≤ |term| * bound := by
        have hfirst : 0 ≤ one * (|term| * bound) := by positivity
        have hlater : (1 : ℤ) ≤ position := by exact_mod_cast hposition
        apply abs_divHalfEven_le (by positivity)
        rw [abs_mul]
        calc |term| * |x| ≤ |term| * (bound * one) := by gcongr
          _ = one * (|term| * bound) := by ring
          _ ≤ one * (|term| * bound) * position := le_mul_of_one_le_right hfirst hlater
          _ = one * position * (|term| * bound) := by ring
      split
      · have : 0 ≤ ((terms + 1 : ℕ) : ℤ) * (|term| * bound ^ (terms + 1)) := by positivity
        omega
      · have hpow : bound ≤ bound ^ (terms + 1) := le_self_pow₀ hbound (by omega)
        calc |expFrom one x terms (divHalfEven (term * x) (one * position)) (position + 1)
              (sum + divHalfEven (term * x) (one * position))|
            ≤ |sum + divHalfEven (term * x) (one * position)| +
                terms * (|divHalfEven (term * x) (one * position)| * bound ^ terms) :=
              ih _ _ _ (by omega)
          _ ≤ (|sum| + |term| * bound ^ (terms + 1)) +
                terms * (|term| * bound * bound ^ terms) := by
              gcongr
              refine (abs_add_le _ _).trans (add_le_add le_rfl (hnext.trans ?_))
              exact mul_le_mul_of_nonneg_left hpow (abs_nonneg term)
          _ = |sum| + ((terms + 1 : ℕ) : ℤ) * (|term| * bound ^ (terms + 1)) := by
              push_cast
              ring

end Series

namespace Decimal

open Series

variable {a b r : Decimal}

/-! ## Fractional exponents -/

/-- The series is shorter than it would have to be for the mantissa to grow too long. -/
private theorem digits_exp_le {places : ℕ} (hplaces : 0 < places) (hle : places ≤ 2 ^ 20) {x : ℤ}
    (hx : |x| ≤ ln10 places) (e : ℤ) :
    (⟨exp places x, e⟩ : Decimal).digits ≤ places + 8 + 7 * seriesLength places := by
  have hpos : 1 ≤ seriesLength places := by
    unfold seriesLength
    omega
  have hone := unit_pos places
  have hunit := unit_eq hle
  have hbound := three_mul_seriesLength_le hle
  have hexp := abs_expFrom_le (10 ^ 7) hone (by norm_num)
    (hx.trans ((ln10_mem hplaces hle).2.trans (mul_le_mul_of_nonneg_right hbound hone.le)))
    (seriesLength places) (unit places) 1 (unit places) one_pos
  rw [abs_of_pos hone, ← pow_mul, hunit] at hexp
  rw [digits_le_iff (by omega)]
  have hsmall : (seriesLength places : ℤ) ≤ 10 ^ 7 := by omega
  show |expFrom (unit places) x (seriesLength places) (unit places) 1 (unit places)| < _
  rw [hunit]
  calc |expFrom (10 ^ places) x (seriesLength places) (10 ^ places) 1 (10 ^ places)|
      ≤ 10 ^ places + seriesLength places * (10 ^ places * 10 ^ (7 * seriesLength places)) := hexp
    _ ≤ 10 ^ places * 10 ^ (7 * seriesLength places) +
          10 ^ 7 * (10 ^ places * 10 ^ (7 * seriesLength places)) := by
        gcongr
        exact le_mul_of_one_le_right (by positivity) (one_le_pow₀ (by norm_num))
    _ < 10 ^ (places + 8 + 7 * seriesLength places) := by
        rw [pow_add, pow_add]
        have : (0 : ℤ) < 10 ^ places * 10 ^ (7 * seriesLength places) := by positivity
        linarith

theorem powPlaces_mem (limits : Limits) (ha : a.Moderate)
    (hsmall : b.adjustedExponent ≤ 20) :
    0 < powPlaces limits.precision a b ∧ powPlaces limits.precision a b ≤ 2 ^ 20 := by
  have hp := limits.precision_le
  unfold largestPrecision at hp
  have hcount : digitCount a.adjustedExponent.natAbs ≤ 19 := by
    rw [digitCount_le_iff (by norm_num), adjustedExponent_eq ha.roomy]
    obtain ⟨hdigits, hge, hle⟩ := ha
    unfold leading
    omega
  unfold powPlaces guardPlaces
  omega

/-- The mantissa and the decade of a power that is not out of range can be rounded. -/
theorem roomy_mantissa (limits : Limits) {places : ℕ} (hplaces : 0 < places)
    (hlimit : places ≤ 2 ^ 20) {product : ℤ}
    (hrange : (divHalfEven product (ln10 places)).natAbs ≤ limits.maxExponent + 2) :
    (⟨exp places (product - divHalfEven product (ln10 places) * ln10 places),
      divHalfEven product (ln10 places) - places⟩ : Decimal).Roomy := by
  have hln10 := (ln10_mem hplaces hlimit).1
  -- what is left for the series is at most half the logarithm of ten
  have hnear := two_mul_abs_sub_divHalfEven_le hln10 product
  rw [mul_comm (ln10 places)] at hnear
  have hdigits := digits_exp_le hplaces hlimit
    (x := product - divHalfEven product (ln10 places) * ln10 places)
    (by linarith [abs_nonneg (product - divHalfEven product (ln10 places) * ln10 places)])
  have hm := limits.maxExponent_le
  unfold largestMaxExponent at hm
  have hlength : seriesLength places = 2 * places + 10 := rfl
  refine ⟨(hdigits _).trans ?_, ?_, ?_⟩
  · unfold largestPower
    omega
  · dsimp only
    omega
  · dsimp only
    omega

theorem normal_powByLogarithm (limits : Limits) (ha : a.Moderate)
    (hsmall : b.adjustedExponent ≤ 20) {grows : Bool}
    (hr : powByLogarithm limits grows a b = .ok r) :
    r.Normal limits.precision limits.maxExponent := by
  have h := limits.manageable
  obtain ⟨hplaces, hlimit⟩ := powPlaces_mem limits ha hsmall
  unfold powByLogarithm at hr
  dsimp only at hr
  generalize powPlaces limits.precision a b = places at hplaces hlimit hr
  generalize shiftTo (ln places a * b.coefficient) b.exponent = product at hr
  split at hr
  · next hrange =>
    have hm := h.maxExponent_le
    unfold largestMaxExponent at hm
    rw [Register.wrap_eq (by omega) (by omega)] at hr
    exact normal_of_roundTo h (roomy_mantissa limits hplaces hlimit hrange) hr
  · unfold powOutOfRange at hr
    split at hr
    · cases hr
    · cases hr
      exact normal_zero h

theorem normal_powFractional (limits : Limits) (ha : a.Moderate)
    (hr : powFractional limits a b = .ok r) : r.Normal limits.precision limits.maxExponent := by
  have h := limits.manageable
  unfold powFractional at hr
  split at hr
  · cases hr
    exact normal_one h
  · dsimp only at hr
    split at hr
    · unfold powOutOfRange at hr
      split at hr
      · cases hr
      · cases hr
        exact normal_zero h
    · next hsmall => exact normal_powByLogarithm limits ha (not_lt.1 hsmall) hr

/-! ## All powers -/

/-- Whatever a power returns is in normal form, by whichever way it was found. -/
theorem normal_pow (limits : Limits) (ha : a.Moderate) (hb : b.Moderate)
    (hr : pow limits a b = .ok r) : r.Normal limits.precision limits.maxExponent := by
  have h := limits.manageable
  unfold pow at hr
  split at hr
  · split at hr
    · cases hr
    · cases hr
      exact normal_one h
  · split at hr
    · split at hr
      · cases hr
      · cases hr
        exact normal_zero h
    · split at hr
      · exact normal_powIntegral limits ha hb hr
      · split at hr
        · cases hr
        · exact normal_powFractional limits ha hr

/-- A representable power with a natural exponent is found exactly. -/
theorem pow_of_fits (limits : Limits) (ha : a.Moderate) (hb : b.Moderate) {n : ℕ}
    (hn : b.value = n) (hdefined : a.value ≠ 0 ∨ n ≠ 0)
    (hfits : Fits limits.precision limits.maxExponent (a.value ^ n)) :
    ∃ r, pow limits a b = .ok r ∧ r.value = a.value ^ n := by
  unfold pow
  by_cases hzero : n = 0
  · have hb0 : b.coefficient = 0 := by simpa [hzero] using hn
    have ha0 : a.coefficient ≠ 0 := by
      rcases hdefined with hne | hne
      · simpa using hne
      · exact absurd hzero hne
    refine ⟨.one, ?_, by rw [hzero, value_one, pow_zero]⟩
    rw [if_pos (by simpa using hb0), if_neg (by simpa using ha0)]
  · have hbpos : 0 < b.value := by
      rw [hn]
      exact_mod_cast Nat.pos_of_ne_zero hzero
    have hb0 : 0 < b.coefficient := value_pos_iff.1 hbpos
    rw [if_neg (by simpa using hb0.ne')]
    by_cases ha0 : a.coefficient = 0
    · refine ⟨.zero, ?_, by rw [value_zero, value_eq_zero_iff.2 ha0, zero_pow hzero]⟩
      rw [if_pos (by simpa using ha0), if_neg (by simpa using hb0.le)]
    · rw [if_neg (by simpa using ha0),
        if_pos ((isInteger_iff hb).2 ⟨n, by exact_mod_cast hn⟩)]
      exact powIntegral_of_fits limits ha hb ha0 hb0.ne' hn hfits

end Decimal

end Reckon
