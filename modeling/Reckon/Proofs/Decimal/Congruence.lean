import Reckon.Proofs.Decimal.Logarithm
import Reckon.Proofs.Decimal.Remainder

/-!
# Equal numbers have equal results

A number can be written in many ways (`SameNumber`), and no operation can tell them apart.  For
those that round the exact result once this is what `RoundsOnce.map_value` says.  A power passes
through more than one rounding, or through fixed point: squaring keeps equal values equal from one
product to the next (`map_value_powBySquaring_eq`), and the fixed point of a fractional power starts
from integers that are the same however the operands are written (`powFractional_eq`).
-/

namespace Reckon.Decimal

open Series

variable {p : ℕ} {m : ℤ} {limits : Limits} {a a' b b' : Decimal}

/-- Two moderate decimals that stand for the same number. -/
structure SameNumber (a a' : Decimal) : Prop where
  left : a.Moderate
  right : a'.Moderate
  value_eq : a.value = a'.value

/-! ## Questions about one decimal -/

namespace SameNumber

theorem abs (h : SameNumber a a') : SameNumber a.abs a'.abs :=
  ⟨h.left.abs, h.right.abs, by rw [value_abs, value_abs, h.value_eq]⟩

theorem coefficient_eq_zero_iff (h : SameNumber a a') :
    a.coefficient = 0 ↔ a'.coefficient = 0 := by
  rw [← value_eq_zero_iff, ← value_eq_zero_iff, h.value_eq]

theorem isZero_eq (h : SameNumber a a') : a.isZero = a'.isZero := by
  rw [Bool.eq_iff_iff, isZero_iff, isZero_iff, h.coefficient_eq_zero_iff]

theorem isNegative_eq (h : SameNumber a a') : a.isNegative = a'.isNegative := by
  rw [Bool.eq_iff_iff, isNegative_iff, isNegative_iff, ← value_lt_zero_iff, ← value_lt_zero_iff,
    h.value_eq]

theorem isInteger_eq (h : SameNumber a a') : a.isInteger = a'.isInteger := by
  rw [Bool.eq_iff_iff, isInteger_iff h.left, isInteger_iff h.right, h.value_eq]

theorem adjustedExponent_eq (h : SameNumber a a') (hne : a.coefficient ≠ 0) :
    a.adjustedExponent = a'.adjustedExponent := by
  rw [Decimal.adjustedExponent_eq h.left.roomy, Decimal.adjustedExponent_eq h.right.roomy,
    leading_eq_of_value_eq hne h.value_eq]

theorem compare_one_eq (h : SameNumber a a') : a.compare .one = a'.compare .one := by
  rw [h.left.compare_eq moderate_one, h.right.compare_eq moderate_one, h.value_eq]

end SameNumber

/-! ## Powers with whole exponents -/

theorem map_value_mulTo_eq (h : Manageable p m) (hab : SameNumber a a') (hbb : SameNumber b b') :
    (mulTo p m a b).map value = (mulTo p m a' b').map value := by
  rw [(roundsOnce_mulTo hab.left hbb.left).map_value h,
    (roundsOnce_mulTo hab.right hbb.right).map_value h, hab.value_eq, hbb.value_eq]

/-- Every product on the way has a value that depends on the value of the base only. -/
theorem map_value_powBySquaring_eq (h : Manageable p m) (hab : SameNumber a a') (n : ℕ) :
    (powBySquaring p m a n).map value = (powBySquaring p m a' n).map value := by
  induction n using Nat.strong_induction_on with
  | _ n ih =>
      unfold powBySquaring
      by_cases hn : n = 0
      · rw [if_pos hn, if_pos hn]
      rw [if_neg hn, if_neg hn]
      refine Except.map_bind_eq (ih (n / 2) (by omega)) fun half half' hhalf hhalf' hvalue => ?_
      have hhalves : SameNumber half half' :=
        ⟨(normal_powBySquaring h hab.left _ hhalf).moderate h,
          (normal_powBySquaring h hab.right _ hhalf').moderate h, hvalue⟩
      refine Except.map_bind_eq (map_value_mulTo_eq h hhalves hhalves)
        fun square square' hsquare hsquare' hvalue => ?_
      by_cases heven : n % 2 = 0
      · rw [if_pos heven, if_pos heven]
        exact congrArg Except.ok hvalue
      · rw [if_neg heven, if_neg heven]
        have hsquares : SameNumber square square' :=
          ⟨(normal_mulTo h hhalves.left hhalves.left hsquare).moderate h,
            (normal_mulTo h hhalves.right hhalves.right hsquare').moderate h, hvalue⟩
        exact map_value_mulTo_eq h hsquares hab

private theorem map_value_powInt_eq (hab : SameNumber a a') {n : ℤ}
    (hwork : Manageable (powDigits limits.precision n) limits.maxExponent) :
    (powInt limits a n).map value = (powInt limits a' n).map value := by
  have h := limits.manageable
  have hpowered := map_value_powBySquaring_eq hwork hab n.natAbs
  have hmoderate := fun r => normal_powBySquaring hwork hab.left n.natAbs (r := r)
  have hmoderate' := fun r => normal_powBySquaring hwork hab.right n.natAbs (r := r)
  unfold powInt
  dsimp only
  by_cases hn : 0 ≤ n
  · rw [if_pos hn, if_pos hn]
    refine Except.map_bind_eq hpowered fun r r' hr hr' hvalue => ?_
    have hround := map_value_roundTo h ((hmoderate r hr).moderate hwork).roomy
    have hround' := map_value_roundTo h ((hmoderate' r' hr').moderate hwork).roomy
    rw [hvalue] at hround
    exact hround.trans hround'.symm
  · rw [if_neg hn, if_neg hn]
    obtain ⟨fault, hfault, hfault'⟩ | ⟨r, r', hr, hr', hvalue⟩ := Except.map_eq_map_iff.1 hpowered
    · rw [hfault, hfault']
    · have hpowers : SameNumber r r' :=
        ⟨(hmoderate r hr).moderate hwork, (hmoderate' r' hr').moderate hwork, hvalue⟩
      rw [hr, hr']
      dsimp only
      rw [hpowers.isZero_eq]
      split
      · rfl
      · next hzero =>
        have hne' : r'.coefficient ≠ 0 := by simpa using hzero
        have hne : r.coefficient ≠ 0 := mt hpowers.coefficient_eq_zero_iff.1 hne'
        rw [(roundsOnce_div limits moderate_one hpowers.left hne).map_value h,
          (roundsOnce_div limits moderate_one hpowers.right hne').map_value h, hvalue]

/-- The power with a huge exponent is the same decimal, because it does not take digits from the
base. -/
private theorem powHuge_eq (hab : SameNumber a a') (hbb : SameNumber b b') {n : ℤ}
    (hn : b.value = n) : powHuge a b = powHuge a' b' := by
  have hodd : b.isOdd = b'.isOdd := by
    rw [Bool.eq_iff_iff, isOdd_iff hbb.left hn, isOdd_iff hbb.right (hbb.value_eq ▸ hn)]
  unfold powHuge
  rw [hab.abs.compare_one_eq, hab.isNegative_eq, hbb.isNegative_eq, hodd]

private theorem map_value_powIntegral_eq (hab : SameNumber a a') (hbb : SameNumber b b')
    (hb0 : b.coefficient ≠ 0) {n : ℤ} (hn : b.value = n) :
    (powIntegral limits a b).map value = (powIntegral limits a' b').map value := by
  rw [powIntegral_eq limits hbb.left hb0 hn,
    powIntegral_eq limits hbb.right (mt hbb.coefficient_eq_zero_iff.2 hb0) (hbb.value_eq ▸ hn)]
  split
  · next hsmall => exact map_value_powInt_eq hab (manageable_powDigits limits hsmall)
  · rw [powHuge_eq hab hbb hn]

/-! ## Powers with fractional exponents -/

/-- The product of the logarithm and the exponent is the same integer. -/
private theorem product_eq (hab : SameNumber a a') (hbb : SameNumber b b')
    (ha0 : a.coefficient ≠ 0) {places : ℕ} (hpos : 0 < places) (hplaces : places ≤ 2 ^ 20)
    (hsmall : b.adjustedExponent ≤ 20) (hsmall' : b'.adjustedExponent ≤ 20) :
    shiftTo (ln places a * b.coefficient) b.exponent =
      shiftTo (ln places a' * b'.coefficient) b'.exponent := by
  rw [ln_eq_of_value_eq hab.left hab.right hplaces ha0 hab.value_eq,
    shiftTo_ln_mul hab.right hbb.left hpos hplaces hsmall,
    shiftTo_ln_mul hab.right hbb.right hpos hplaces hsmall', hbb.value_eq]

private theorem powByLogarithm_eq (hab : SameNumber a a') (hbb : SameNumber b b')
    (ha0 : a.coefficient ≠ 0) (hb0 : b.coefficient ≠ 0) (hsmall : b.adjustedExponent ≤ 20)
    (grows : Bool) : powByLogarithm limits grows a b = powByLogarithm limits grows a' b' := by
  have hadjusted := hbb.adjustedExponent_eq hb0
  obtain ⟨hpos, hplaces⟩ := powPlaces_mem limits hab.left hsmall
  have hsame : powPlaces limits.precision a b = powPlaces limits.precision a' b' := by
    unfold powPlaces
    rw [hadjusted, hab.adjustedExponent_eq ha0]
  unfold powByLogarithm
  dsimp only
  rw [← hsame, product_eq hab hbb ha0 hpos hplaces hsmall (hadjusted ▸ hsmall)]

/-- A power with a fractional exponent is the same decimal, however the operands are written. -/
theorem powFractional_eq (hab : SameNumber a a') (hbb : SameNumber b b') (ha0 : a.coefficient ≠ 0)
    (hb0 : b.coefficient ≠ 0) : powFractional limits a b = powFractional limits a' b' := by
  unfold powFractional
  rw [hab.compare_one_eq, hbb.isNegative_eq, hbb.adjustedExponent_eq hb0]
  split
  · rfl
  · dsimp only
    split
    · rfl
    · next hlarge =>
      rw [← hbb.adjustedExponent_eq hb0] at hlarge
      exact powByLogarithm_eq hab hbb ha0 hb0 (not_lt.1 hlarge) _

/-! ## All operations -/

theorem map_value_pow_eq (limits : Limits) (hab : SameNumber a a') (hbb : SameNumber b b') :
    (pow limits a b).map value = (pow limits a' b').map value := by
  unfold pow
  rw [← hab.isZero_eq, ← hab.isNegative_eq, ← hbb.isZero_eq, ← hbb.isNegative_eq,
    ← hbb.isInteger_eq]
  by_cases hb0 : b.isZero
  · rw [if_pos hb0, if_pos hb0]
  by_cases ha0 : a.isZero
  · rw [if_neg hb0, if_neg hb0, if_pos ha0, if_pos ha0]
  rw [if_neg hb0, if_neg hb0, if_neg ha0, if_neg ha0]
  have ha0 : a.coefficient ≠ 0 := by simpa using ha0
  have hb0 : b.coefficient ≠ 0 := by simpa using hb0
  by_cases hwhole : b.isInteger
  · obtain ⟨n, hn⟩ := (isInteger_iff hbb.left).1 hwhole
    rw [if_pos hwhole, if_pos hwhole, map_value_powIntegral_eq hab hbb hb0 hn]
  · rw [if_neg hwhole, if_neg hwhole, powFractional_eq hab hbb ha0 hb0]

end Reckon.Decimal
