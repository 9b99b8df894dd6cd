import Reckon.Proofs.Decimal.CorrectRounding
import Reckon.Proofs.Decimal.ExactSum

/-!
# A mean is half of the exact sum, rounded once

`average` halves a sum that it need not have formed exactly.  Its result is that of dividing the
exact sum by two without bounds, coefficient and exponent alike (`average_eq_divExactly`).

## Strategy

What is halved is the exact sum itself, or both have more than two digits more than are kept
(`addUnrounded_cases_exactSum`).  In the second case division finds more digits of either half than
are kept (`lt_digits_signedQuotient`), so after rounding the halves differ only if their rounded
values do.  They do not: a half-way point between the halves would be doubled to a multiple of a
half-way point two digits further down, and there the sum that was formed lies on the same side as
the exact one (`RoundsAs.div_two`).
-/

namespace Reckon.Decimal

variable {p : ℕ} {m : ℤ} {a b d d' : Decimal}

/-- Long numbers that are rounded alike to two digits more have the same half, coefficient and
exponent. -/
theorem divExactly_two_eq (hp : 0 < p) (hd : p + 2 < d.digits) (hd' : p + 2 < d'.digits)
    (h : RoundsAs (p + 2) d.value d'.value) :
    divExactly p m d (ofInt 2) = divExactly p m d' (ofInt 2) := by
  have hne := coefficient_ne_zero_of_lt_digits (Nat.succ_pos _) hd
  have hne' := coefficient_ne_zero_of_lt_digits (Nat.succ_pos _) hd'
  have htwo : (ofInt 2).coefficient ≠ 0 := by decide
  have hone : (ofInt 2).digits = 1 := by decide
  unfold divExactly
  rw [if_neg htwo, if_neg htwo, if_neg hne, if_neg hne']
  apply roundExactly_eq_of_lt_digits hp (lt_digits_signedQuotient hp hne htwo (by omega))
    (lt_digits_signedQuotient hp hne' htwo (by omega))
  rw [(roundsAs_signedQuotient hne htwo).nearest_eq hp,
    (roundsAs_signedQuotient hne' htwo).nearest_eq hp, value_ofInt]
  exact (h.div_two.nearest_eq hp).symm

theorem average_eq_divExactly (limits : Limits) (ha : a.Moderate) (hb : b.Moderate) :
    average limits a b =
      divExactly limits.precision limits.maxExponent (exactSum a b) (ofInt 2) := by
  have h := limits.manageable
  have hp := Nat.add_le_add_right h.precision_le 2
  obtain ⟨hlow, hhigh⟩ := exponent_addUnrounded_mem hp ha hb
  unfold average
  rw [divTo_eq_divExactly (roomy_addUnrounded hp ha hb) hlow (by omega) moderate_two h]
  rcases addUnrounded_cases_exactSum (Nat.succ_pos _) hp ha hb with heq | ⟨hformed, hexact⟩
  · rw [heq]
  · refine (divExactly_two_eq h.precision_pos hexact hformed ?_).symm
    rw [value_exactSum]
    exact roundsAs_addUnrounded hp ha hb

/-- A mean is what division by two makes of the exact sum, however many digits that has, and so it
is the exact mean rounded half to even.  It has no result only where the rounded mean lies above the
range, whether or not the sum does. -/
theorem average_eq_exact_mean_rounded (limits : Limits) (ha : a.Moderate) (hb : b.Moderate) :
    let mean := (a.value + b.value) / 2
    let r := nearest limits.precision mean
    (exactSum a b).exponent = min a.exponent b.exponent ∧
      (exactSum a b).value = a.value + b.value ∧
      average limits a b =
        divExactly limits.precision limits.maxExponent (exactSum a b) (ofInt 2) ∧
      ((exactSum a b).Roomy → average limits a b = div limits (exactSum a b) (ofInt 2)) ∧
      (average limits a b = .error .overflow ↔ limits.maxExponent < Int.log 10 |r|) ∧
      ((∃ v, average limits a b = .ok v ∧ v.isZero) ↔
        mean = 0 ∨ Int.log 10 |r| < -limits.maxExponent) ∧
      (-limits.maxExponent ≤ Int.log 10 |r| → Int.log 10 |r| ≤ limits.maxExponent →
        ∃ v, average limits a b = .ok v ∧ v.value = r) := by
  intro mean r
  have h := limits.manageable
  have haverage := average_eq_divExactly limits ha hb
  have hmean := roundsOnce_average limits ha hb
  refine ⟨rfl, value_exactSum a b, haverage, fun hroomy => ?_, hmean.eq_overflow_iff h,
    hmean.isZero_iff h, hmean.exists_value_eq h⟩
  have halow := ha.exponent_ge
  have hahigh := ha.exponent_le
  have hblow := hb.exponent_ge
  have hexponent : (exactSum a b).exponent = min a.exponent b.exponent := rfl
  rw [haverage]
  exact (divTo_eq_divExactly hroomy (by omega) (by omega) moderate_two h).symm

/-- A number a hundred and sixty places down is enough to lift a mean off the half-way point that
the other number alone would give. -/
theorem mean_just_above_half_way :
    (⟨10000000000000000000000000001, 100⟩ : Decimal).Moderate ∧ (⟨1, -60⟩ : Decimal).Moderate ∧
      average .default ⟨10000000000000000000000000001, 100⟩ ⟨1, -60⟩ =
        divExactly 28 999999 (exactSum ⟨10000000000000000000000000001, 100⟩ ⟨1, -60⟩) (ofInt 2) ∧
      average .default ⟨10000000000000000000000000001, 100⟩ ⟨1, -60⟩ =
        .ok ⟨5000000000000000000000000001, 100⟩ ∧
      average .default ⟨10000000000000000000000000001, 100⟩ .zero =
        .ok ⟨5000000000000000000000000000, 100⟩ := by
  have hlarge : (⟨10000000000000000000000000001, 100⟩ : Decimal).Moderate :=
    ⟨by decide, by decide, by decide⟩
  have hsmall : (⟨1, -60⟩ : Decimal).Moderate := ⟨by decide, by decide, by decide⟩
  obtain ⟨-, -, haverage, -⟩ := average_eq_exact_mean_rounded .default hlarge hsmall
  exact ⟨hlarge, hsmall, haverage, by decide, by decide⟩

/-- The sum of two numbers at the upper end of the range lies above it, and their mean does not. -/
example : add .default ⟨9, 999999⟩ ⟨9, 999999⟩ = .error .overflow ∧
    average .default ⟨9, 999999⟩ ⟨9, 999999⟩ = .ok ⟨9, 999999⟩ := by
  decide

end Reckon.Decimal
