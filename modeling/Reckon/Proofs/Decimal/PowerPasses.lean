import Reckon.Proofs.Decimal.FractionalPower
import Reckon.Proofs.Series.Passes

/-!
# How long fractional powers take

The loops that a power with a fractional exponent runs are the halvings of the logarithm (`halved`),
the inverse hyperbolic tangent at three arguments (`atanhArguments`), from which the logarithms of
the base and of ten are put together (`ln_eq`), and the exponential of what is left of the product
when the nearest multiple of the logarithm of ten is taken off (`powRest`).

How long each of them runs depends on what the one before it leaves.  The mantissa has one digit
before the point, so it is halved three times at most.  Then it lies between one and two, and the
argument that it gives the inverse hyperbolic tangent is at most one third, as the other two are.
The rest of the product is at most half the logarithm of ten, hence less than three halves.  With
such arguments the series end in time (`pow_fractional_series_end_in_time`).
-/

namespace Reckon

open Series

namespace Series

open Decimal

variable {places : ℕ} {d : Decimal}

/-! ## The arguments of the series -/

/-- The number with its leading digit before the point, halved until it is less than two, and the
number of halvings. -/
def halved (places : ℕ) (d : Decimal) : ℕ × ℕ :=
  halve places (shiftTo d.coefficient.natAbs (Register.wrap (places - (d.digits - 1)))).toNat 0

/-- The argument `(x - 1) / (x + 1)` that `lnNearOne` takes the inverse hyperbolic tangent of. -/
def nearOneRatio (places : ℕ) (x : ℤ) : ℤ :=
  divHalfEven ((x - unit places) * unit places) (x + unit places)

/-- Everything that the logarithms of a decimal and of ten take the inverse hyperbolic tangent
of. -/
def atanhArguments (places : ℕ) (d : Decimal) : List ℤ :=
  [nearOneRatio places (halved places d).1, unit places / 3, unit places / 9]

theorem ln_eq (places : ℕ) (d : Decimal) :
    ln places d =
      2 * atanh places (nearOneRatio places (halved places d).1) +
        2 * atanh places (unit places / 3) * (halved places d).2 +
        (3 * (2 * atanh places (unit places / 3)) + 2 * atanh places (unit places / 9)) *
          d.adjustedExponent := rfl

/-- What is halved has one digit before the point. -/
theorem halved_mem (hd : d.Moderate) (hd0 : 0 < d.value) (hpos : 2 ≤ places)
    (hplaces : places ≤ 2 ^ 20) :
    unit places ≤ (halved places d).1 ∧ (halved places d).1 < 2 * unit places ∧
      (halved places d).2 ≤ 3 := by
  obtain ⟨hlow, hhigh, -⟩ := mantissa_mem places hd0
  have hpow : (pow10 places : ℤ) = 10 ^ places := unit_eq hplaces
  unfold halved
  rw [mantissa_eq hd hplaces]
  obtain ⟨hge, hlt, hthree, -⟩ := halve_mem hpos hplaces
    (nearestEven (|d.value| * 10 ^ (places - d.leading))).toNat (by omega) (by omega)
  exact ⟨hge, hlt, hthree⟩

/-- A number from one up to two gives an argument of at most one half, rounded as it is. -/
theorem two_mul_abs_nearOneRatio_le {x : ℤ} (hlow : unit places ≤ x) (hhigh : x < 2 * unit places) :
    2 * |nearOneRatio places x| ≤ unit places := by
  have hone := unit_pos places
  have hdivisor : 0 < x + unit places := by omega
  have hrounded := two_mul_mul_abs_divHalfEven_le hdivisor ((x - unit places) * unit places)
  rw [abs_of_nonneg (mul_nonneg (by omega) hone.le)] at hrounded
  -- the quotient itself is at most one third
  have hthird : 3 * ((x - unit places) * unit places) ≤ (x + unit places) * unit places := by
    rw [← mul_assoc]
    exact mul_le_mul_of_nonneg_right (by omega) hone.le
  unfold nearOneRatio
  by_contra hlarge
  have hscaled : (x + unit places) * (3 * unit places + 3) ≤ (x + unit places) *
      (6 * |divHalfEven ((x - unit places) * unit places) (x + unit places)|) :=
    mul_le_mul_of_nonneg_left (by omega) hdivisor.le
  have hless : (x + unit places) * (2 * unit places + 3) < (x + unit places) *
      (3 * unit places + 3) := mul_lt_mul_of_pos_left (by omega) hdivisor
  linarith

theorem two_mul_abs_le_of_mem_atanhArguments (hd : d.Moderate) (hd0 : 0 < d.value)
    (hpos : 2 ≤ places) (hplaces : places ≤ 2 ^ 20) {z : ℤ} (hz : z ∈ atanhArguments places d) :
    2 * |z| ≤ unit places := by
  have hone := unit_pos places
  simp only [atanhArguments, List.mem_cons, List.not_mem_nil, or_false] at hz
  obtain ⟨hlow, hhigh, -⟩ := halved_mem hd hd0 hpos hplaces
  rcases hz with rfl | rfl | rfl
  · exact two_mul_abs_nearOneRatio_le hlow hhigh
  · rw [abs_of_nonneg (by omega)]
    omega
  · rw [abs_of_nonneg (by omega)]
    omega

end Series

namespace Decimal

variable {places : ℕ} {a b : Decimal}

/-- The product of logarithm and exponent. -/
def powProduct (places : ℕ) (a b : Decimal) : ℤ :=
  shiftTo (ln places a * b.coefficient) b.exponent

/-- The multiple of the logarithm of ten that is nearest to the product. -/
def powDecade (places : ℕ) (a b : Decimal) : ℤ :=
  divHalfEven (powProduct places a b) (ln10 places)

/-- What is left of the product when that multiple is taken off. -/
def powRest (places : ℕ) (a b : Decimal) : ℤ :=
  powProduct places a b - powDecade places a b * ln10 places

theorem powByLogarithm_eq_exp_powRest (limits : Limits)
    (hplaces : places = powPlaces limits.precision a b) (grows : Bool) :
    powByLogarithm limits grows a b =
      if (powDecade places a b).natAbs ≤ limits.maxExponent + 2 then
        (⟨exp places (powRest places a b), Register.wrap (powDecade places a b - places)⟩ :
          Decimal).round limits
      else powOutOfRange grows := by
  rw [hplaces]
  rfl

theorem two_mul_abs_powRest_le (hpos : 0 < places) (hplaces : places ≤ 2 ^ 20) (a b : Decimal) :
    2 * |powRest places a b| ≤ ln10 places := by
  have hln10 := (ln10_mem hpos hplaces).1
  unfold powRest powDecade
  rw [mul_comm _ (ln10 places)]
  exact two_mul_abs_sub_divHalfEven_le hln10 _

/-- The loops of a power with a fractional exponent are finished in time.  The logarithm of the base
is put together from the inverse hyperbolic tangents of three arguments and the number of halvings,
and the power from the exponential of what is left of the product.  The number that the logarithm is
taken of is halved at most four times and then lies between one and two; the inverse hyperbolic
tangent and the exponential end by themselves after at most `2 * places + 10` passes, with positions
of at most thirty-two bits; and the exponential is taken of at most half the logarithm of ten.  The
base may also be one here, and the exponent whole. -/
theorem pow_fractional_series_end_in_time (limits : Limits) (ha : a.Moderate) (ha0 : 0 < a.value)
    (hsmall : b.adjustedExponent ≤ 20) (hplaces : places = powPlaces limits.precision a b) :
    ln places a =
        2 * atanh places (nearOneRatio places (halved places a).1) +
          2 * atanh places (unit places / 3) * (halved places a).2 +
          (3 * (2 * atanh places (unit places / 3)) + 2 * atanh places (unit places / 9)) *
            a.adjustedExponent ∧
      (∀ grows, powByLogarithm limits grows a b =
        if (powDecade places a b).natAbs ≤ limits.maxExponent + 2 then
          (⟨exp places (powRest places a b), Register.wrap (powDecade places a b - places)⟩ :
            Decimal).round limits
        else powOutOfRange grows) ∧
      ((halved places a).2 ≤ 4 ∧
        10 ^ places ≤ (halved places a).1 ∧ (halved places a).1 < 2 * 10 ^ places) ∧
      (∀ z ∈ atanhArguments places a,
        EndsInTime places (atanhPass (unit places) (divHalfEven (z * z) (unit places))) ⟨z, 1, 0⟩
          (atanh places z)) ∧
      |powRest places a b| ≤ ln10 places / 2 + 1 ∧
      EndsInTime places (expPass (unit places) (powRest places a b))
        ⟨unit places, 1, unit places⟩ (exp places (powRest places a b)) := by
  obtain ⟨hpos, hlimit⟩ := powPlaces_mem limits ha hsmall
  have hdigits := powPlaces_eq limits.precision a b
  rw [← hplaces] at hpos hlimit hdigits
  have hprecision := limits.precision_pos
  have htwo : 2 ≤ places := by omega
  have hunit := unit_eq hlimit
  obtain ⟨hlow, hhigh, hthree⟩ := halved_mem ha ha0 htwo hlimit
  have hrest := two_mul_abs_powRest_le hpos hlimit a b
  refine ⟨ln_eq places a, powByLogarithm_eq_exp_powRest limits hplaces, ⟨by omega, ?_, ?_⟩,
    fun z hz => ?_, by omega, ?_⟩
  · rw [hunit] at hlow
    exact_mod_cast hlow
  · rw [hunit] at hhigh
    exact_mod_cast hhigh
  · exact atanh_endsInTime hpos hlimit
      (two_mul_abs_le_of_mem_atanhArguments ha ha0 htwo hlimit hz)
  · have hln10 : ln10 places ≤ 3 * unit places := by
      have hreal := (ln10_between (by omega) hlimit).2
      rw [← unit_cast hlimit] at hreal
      exact_mod_cast hreal
    exact exp_endsInTime hlimit (hrest.trans hln10)

/-- A power of a base just below ten, which is halved as often as any. -/
theorem power_of_nine_point_nine_in_time :
    (⟨99, -1⟩ : Decimal).Moderate ∧ 0 < (⟨99, -1⟩ : Decimal).value ∧
      (⟨-25, -1⟩ : Decimal).adjustedExponent ≤ 20 ∧
      43 = powPlaces Limits.default.precision ⟨99, -1⟩ ⟨-25, -1⟩ ∧
      ln 43 ⟨99, -1⟩ =
        2 * atanh 43 (nearOneRatio 43 (halved 43 ⟨99, -1⟩).1) +
          2 * atanh 43 (unit 43 / 3) * (halved 43 ⟨99, -1⟩).2 +
          (3 * (2 * atanh 43 (unit 43 / 3)) + 2 * atanh 43 (unit 43 / 9)) *
            (⟨99, -1⟩ : Decimal).adjustedExponent ∧
      (∀ grows, powByLogarithm .default grows ⟨99, -1⟩ ⟨-25, -1⟩ =
        if (powDecade 43 ⟨99, -1⟩ ⟨-25, -1⟩).natAbs ≤ Limits.default.maxExponent + 2 then
          (⟨exp 43 (powRest 43 ⟨99, -1⟩ ⟨-25, -1⟩),
            Register.wrap (powDecade 43 ⟨99, -1⟩ ⟨-25, -1⟩ - 43)⟩ : Decimal).round .default
        else powOutOfRange grows) ∧
      ((halved 43 ⟨99, -1⟩).2 ≤ 4 ∧
        10 ^ 43 ≤ (halved 43 ⟨99, -1⟩).1 ∧ (halved 43 ⟨99, -1⟩).1 < 2 * 10 ^ 43) ∧
      (∀ z ∈ atanhArguments 43 ⟨99, -1⟩,
        EndsInTime 43 (atanhPass (unit 43) (divHalfEven (z * z) (unit 43))) ⟨z, 1, 0⟩
          (atanh 43 z)) ∧
      |powRest 43 ⟨99, -1⟩ ⟨-25, -1⟩| ≤ ln10 43 / 2 + 1 ∧
      EndsInTime 43 (expPass (unit 43) (powRest 43 ⟨99, -1⟩ ⟨-25, -1⟩))
        ⟨unit 43, 1, unit 43⟩ (exp 43 (powRest 43 ⟨99, -1⟩ ⟨-25, -1⟩)) := by
  have hbase : (⟨99, -1⟩ : Decimal).Moderate := ⟨by decide, by decide, by decide⟩
  have hpositive : 0 < (⟨99, -1⟩ : Decimal).value := value_pos_iff.2 (by decide)
  have hsmall : (⟨-25, -1⟩ : Decimal).adjustedExponent ≤ 20 := by decide
  have hplaces : 43 = powPlaces Limits.default.precision ⟨99, -1⟩ ⟨-25, -1⟩ := by decide
  exact ⟨hbase, hpositive, hsmall, hplaces,
    pow_fractional_series_end_in_time Limits.default hbase hpositive hsmall hplaces⟩

end Decimal

end Reckon
