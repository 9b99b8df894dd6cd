import Reckon.Proofs.Decimal.Faithful
import Reckon.Proofs.Decimal.Fractional
import Reckon.Proofs.Except

/-!
# Powers under a faithful register

A power gives under a faithful register what it gives under the sixty-four-bit one
(`Moderate.pow_eq`).  The intermediate results of squaring are rounded, so they are in normal form
and their products leave the register room as those of the operands do; the exponent that a
fractional power ends with is bounded by the range that it has been held to before.
-/

namespace Reckon

open Register

variable {register : Register} {limits : Limits} {p : ℕ} {m : ℤ}

/-! ## Logarithms -/

namespace Series

open Decimal

theorem shiftTo_eq_of_faithful {shift : ℤ} (h : register.Faithful) (hlow : -2 ^ 62 < shift)
    (hhigh : shift < 2 ^ 62) (n : ℤ) : @shiftTo register n shift = @shiftTo word64 n shift := by
  unfold shiftTo
  rw [h.wrap_eq_word64 (by omega) (by omega)]

theorem ln_eq_of_faithful {d : Decimal} {places : ℕ} (h : register.Faithful) (hd : d.Moderate)
    (hplaces : places ≤ 2 ^ 20) : @ln register places d = @ln word64 places d := by
  have hdigits := hd.digits_lt
  have hpos := d.digits_pos
  unfold ln
  rw [hd.roomy.adjustedExponent_eq h, h.wrap_eq (by omega) (by omega),
    Register.wrap_eq (by omega) (by omega), shiftTo_eq_of_faithful h (by omega) (by omega)]

end Series

namespace Decimal

open Series

variable {a b : Decimal}

/-! ## Whole exponents -/

theorem Moderate.powBySquaring_eq (ha : a.Moderate) (h : register.Faithful)
    (hwork : Manageable p m) :
    ∀ n : ℕ, @powBySquaring register p m a n = @powBySquaring word64 p m a n := by
  intro n
  induction n using Nat.strong_induction_on with
  | _ n ih =>
      conv_lhs => unfold powBySquaring
      conv_rhs => unfold powBySquaring
      split
      · rfl
      · next hpos =>
        rw [ih (n / 2) (by omega)]
        apply Except.bind_congr_of_ok
        intro half hhalf
        have hmoderate := (normal_powBySquaring hwork ha _ hhalf).moderate hwork
        rw [hmoderate.mulTo_eq h hmoderate hwork]
        apply Except.bind_congr_of_ok
        intro square hsquare
        have hsquared := (normal_mulTo hwork hmoderate hmoderate hsquare).moderate hwork
        rw [hsquared.mulTo_eq h ha hwork]

theorem Moderate.powHuge_eq (ha : a.Moderate) (h : register.Faithful) (hb : b.Moderate) :
    @powHuge register a b = @powHuge word64 a b := by
  unfold powHuge isOdd
  rw [ha.abs.compare_eq_of_faithful h moderate_one, hb.roomy.toInteger?_eq h]

theorem Moderate.powInt_eq (ha : a.Moderate) (h : register.Faithful) {n : ℤ}
    (hwork : Manageable (powDigits limits.precision n) limits.maxExponent) :
    @powInt register limits a n = @powInt word64 limits a n := by
  have hmoderate : ∀ {r}, @powBySquaring word64 (powDigits limits.precision n) limits.maxExponent
      a n.natAbs = .ok r → r.Moderate := fun hr =>
    (normal_powBySquaring hwork ha _ hr).moderate hwork
  unfold powInt
  dsimp only
  rw [ha.powBySquaring_eq h hwork]
  split
  · apply Except.bind_congr_of_ok
    intro r hr
    exact (hmoderate hr).roomy.round_eq h limits
  · generalize hpowered : @powBySquaring word64 (powDigits limits.precision n) limits.maxExponent
      a n.natAbs = powered at hmoderate
    match powered with
    | .error .overflow => rfl
    | .error .divisionByZero => rfl
    | .error .undefined => rfl
    | .ok r =>
        dsimp only
        rw [moderate_one.div_eq h (hmoderate rfl)]

theorem Moderate.powIntegral_eq (ha : a.Moderate) (h : register.Faithful) (hb : b.Moderate) :
    @powIntegral register limits a b = @powIntegral word64 limits a b := by
  unfold powIntegral
  rw [hb.roomy.adjustedExponent_eq h, hb.roomy.toInteger?_eq h, ha.powHuge_eq h hb]
  split
  · rfl
  · next hsmall =>
    split
    · next n hinteger =>
      have hn := natAbs_lt_of_toInteger? hb (not_le.1 hsmall) hinteger
      exact ha.powInt_eq h (manageable_powDigits limits hn)
    · rfl

/-! ## Fractional exponents -/

theorem powPlaces_eq_of_faithful (h : register.Faithful) (ha : a.Moderate) (hb : b.Moderate) :
    @powPlaces register p a b = @powPlaces word64 p a b := by
  unfold powPlaces
  rw [ha.roomy.adjustedExponent_eq h, hb.roomy.adjustedExponent_eq h]

theorem Moderate.powByLogarithm_eq (ha : a.Moderate) (h : register.Faithful) (hb : b.Moderate)
    (hsmall : @adjustedExponent word64 b ≤ 20) (grows : Bool) :
    @powByLogarithm register limits grows a b = @powByLogarithm word64 limits grows a b := by
  obtain ⟨hplaces, hlimit⟩ := powPlaces_mem limits ha hsmall
  have hblow := hb.exponent_ge
  have hbhigh := hb.exponent_le
  unfold powByLogarithm
  dsimp only
  rw [powPlaces_eq_of_faithful h ha hb, ln_eq_of_faithful h ha hlimit,
    shiftTo_eq_of_faithful h (by omega) (by omega)]
  split
  · next hrange =>
    have hm := limits.maxExponent_le
    unfold largestMaxExponent at hm
    rw [h.wrap_eq (by omega) (by omega), Register.wrap_eq (by omega) (by omega),
      (roomy_mantissa limits hplaces hlimit hrange).round_eq h]
  · rfl

theorem Moderate.powFractional_eq (ha : a.Moderate) (h : register.Faithful) (hb : b.Moderate) :
    @powFractional register limits a b = @powFractional word64 limits a b := by
  unfold powFractional
  rw [ha.compare_eq_of_faithful h moderate_one, hb.roomy.adjustedExponent_eq h]
  split
  · rfl
  · dsimp only
    split
    · rfl
    · next hsmall => exact ha.powByLogarithm_eq h hb (not_lt.1 hsmall) _

theorem Moderate.pow_eq (ha : a.Moderate) (h : register.Faithful) (hb : b.Moderate)
    (limits : Limits) : @pow register limits a b = @pow word64 limits a b := by
  unfold pow
  rw [hb.roomy.isInteger_eq h, ha.powIntegral_eq h hb, ha.powFractional_eq h hb]

end Decimal

end Reckon
