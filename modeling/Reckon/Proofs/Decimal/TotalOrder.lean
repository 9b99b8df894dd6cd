import Mathlib.Order.Std
import Reckon.Proofs.Decimal.Faithful
import Reckon.Proofs.Decimal.Order
import Reckon.Proofs.Decimal.RegisterEnds

/-!
# The order at the ends of the register

Near an end of the register the exponent of a leading digit may have stopped short, and two numbers
whose leading digits stand in different places are then compared as if they stood in the same one.
That costs nothing but the work of writing both out: leading digits that the register has brought
together are so close to its end that the two numbers can be brought to a common exponent
(`Storable.exponent_gap_le`).  So decimals with any exponent that the register holds are ordered
as their values are, and as they would be if the register had no ends
(`Storable.compare_unbounded`).

Everything that is asked of an order follows from this (`compare_is_numeric_order`).
-/

namespace Reckon.Decimal

variable {a b d : Decimal}

/-! ## Leading digits that the register has brought together -/

/-- The numbers can be brought to a common exponent. -/
theorem Storable.exponent_gap_le (ha : a.Storable) (hb : b.Storable)
    (h : a.adjustedExponent = b.adjustedExponent) :
    |a.exponent - b.exponent| ≤ largestPower := by
  obtain ⟨hadigits, halow, hahigh⟩ := ha
  obtain ⟨hbdigits, hblow, hbhigh⟩ := hb
  unfold adjustedExponent at h
  simp only [Register.saturate_eq_max_min, Register.least, Register.greatest] at *
  have := a.digits_pos
  have := b.digits_pos
  rw [abs_le]
  unfold largestPower
  omega

theorem Storable.compare_eq (ha : a.Storable) (hb : b.Storable) :
    a.compare b = compare a.value b.value :=
  compare_eq_compare_value (ha.exponent_gap_le hb)

theorem Storable.equiv_iff (ha : a.Storable) (hb : b.Storable) :
    a.equiv b = true ↔ a.value = b.value := by
  unfold equiv
  rw [ha.compare_eq hb, beq_iff_eq, compare_eq_iff_eq]

/-! ## Without a register -/

theorem adjustedExponent_unbounded (d : Decimal) :
    @adjustedExponent Register.unbounded d = d.leading := by
  show d.exponent + ((d.digits : ℤ) - 1) = d.leading
  unfold leading
  omega

/-- Where the leading digits differ they decide without a register, and where they agree the
register has no part in the comparison either. -/
theorem Storable.compareMagnitude_unbounded (ha : a.Storable) (hb : b.Storable)
    (ha0 : a.coefficient ≠ 0) (hb0 : b.coefficient ≠ 0) :
    a.compareMagnitude b = @compareMagnitude Register.unbounded a b := by
  have hgap := ha.exponent_gap_le hb
  rcases lt_trichotomy a.leading b.leading with hlt | heq | hgt
  · have hdecided : @compareMagnitude Register.unbounded a b = .lt := by
      unfold compareMagnitude
      rw [adjustedExponent_unbounded, adjustedExponent_unbounded, compare_lt_iff_lt.2 hlt]
    rw [compareMagnitude_eq ha0 hb0 hgap, hdecided, compare_lt_iff_lt]
    exact abs_value_lt_of_leading_lt hb0 hlt
  · have hadjusted : a.adjustedExponent = b.adjustedExponent := by
      unfold adjustedExponent leading at *
      rw [show a.exponent + ((a.digits : ℤ) - 1) = b.exponent + ((b.digits : ℤ) - 1) by omega]
    obtain ⟨hlow, hhigh⟩ := abs_le.1 (hgap hadjusted)
    have ha' : a.abs.exponent = a.exponent := rfl
    have hb' : b.abs.exponent = b.exponent := rfl
    unfold largestPower at hlow hhigh
    unfold compareMagnitude
    rw [adjustedExponent_unbounded, adjustedExponent_unbounded, compare_eq_iff_eq.2 hadjusted,
      compare_eq_iff_eq.2 heq]
    dsimp only
    rw [rescale_eq_of_faithful (d := a.abs) Register.faithful_unbounded (by omega) (by omega),
      rescale_eq_of_faithful (d := b.abs) Register.faithful_unbounded (by omega) (by omega)]
  · have hdecided : @compareMagnitude Register.unbounded a b = .gt := by
      unfold compareMagnitude
      rw [adjustedExponent_unbounded, adjustedExponent_unbounded, compare_gt_iff_gt.2 hgt]
    rw [compareMagnitude_eq ha0 hb0 hgap, hdecided, compare_gt_iff_gt]
    exact abs_value_lt_of_leading_lt ha0 hgt

theorem Storable.compare_unbounded (ha : a.Storable) (hb : b.Storable) :
    a.compare b = @Decimal.compare Register.unbounded a b := by
  unfold Decimal.compare
  split
  · next hsign =>
    have hsign : a.coefficient.sign = b.coefficient.sign := compare_eq_iff_eq.1 hsign
    by_cases ha0 : a.coefficient = 0
    · have hzero : a.isZero = true := isZero_iff.2 ha0
      rw [if_pos hzero, if_pos hzero]
    · have hb0 : b.coefficient ≠ 0 := by
        rwa [ne_eq, ← Int.sign_eq_zero_iff_zero, ← hsign, Int.sign_eq_zero_iff_zero]
      rw [ha.compareMagnitude_unbounded hb ha0 hb0]
  · rfl

/-! ## The laws of the order -/

/-- Decimals of fewer than `2 ^ 31` digits, whatever their exponents are, are ordered as the numbers
that they stand for, and as they would be in a register without ends.  Equality is an equivalence,
the order is total, transitive and consistent with it, and neither zeros at the end of a
coefficient nor the exponent of a zero are seen. -/
theorem compare_is_numeric_order :
    (∀ a b : Decimal, a.Storable → b.Storable →
      a.compare b = compare a.value b.value ∧
        a.compare b = @Decimal.compare Register.unbounded a b ∧
        (a.equiv b = true ↔ a.compare b = .eq) ∧
        (a.le b = true ↔ a.value ≤ b.value)) ∧
    Equivalence (fun a b : {d : Decimal // d.Storable} => a.1.equiv b.1 = true) ∧
    Std.TransCmp (fun a b : {d : Decimal // d.Storable} => a.1.compare b.1) ∧
    (∀ (c e : ℤ) (n : ℕ), Storable ⟨c * 10 ^ n, e⟩ → Storable ⟨c, e + n⟩ →
      Decimal.equiv ⟨c * 10 ^ n, e⟩ ⟨c, e + n⟩ = true) ∧
    ∀ e e' : ℤ, Register.InRange e → Register.InRange e' →
      Decimal.equiv ⟨0, e⟩ ⟨0, e'⟩ = true := by
  refine ⟨fun a b ha hb => ⟨ha.compare_eq hb, ha.compare_unbounded hb, ?_, ?_⟩, ?_, ?_, ?_, ?_⟩
  · exact beq_iff_eq
  · unfold le
    rw [ha.compare_eq hb, bne_iff_ne, ne_eq, compare_gt_iff_gt, not_lt]
  · have hiff : ∀ a b : {d : Decimal // d.Storable},
        a.1.equiv b.1 = true ↔ a.1.value = b.1.value := fun a b => a.2.equiv_iff b.2
    simp only [hiff]
    exact ⟨fun _ => rfl, Eq.symm, Eq.trans⟩
  · have heq : (fun a b : {d : Decimal // d.Storable} => a.1.compare b.1) =
        compareOn fun a => a.1.value := by
      funext a b
      exact a.2.compare_eq b.2
    rw [heq]
    infer_instance
  · intro c e n hlong hshort
    rw [hlong.equiv_iff hshort, value_mul_pow]
  · intro e e' he he'
    have hzero : ∀ e, Register.InRange e → Storable ⟨0, e⟩ := fun e he => ⟨by simp [digits], he⟩
    rw [(hzero e he).equiv_iff (hzero e' he'), value_eq_zero_iff.2 rfl, value_eq_zero_iff.2 rfl]

/-- The register has brought the leading digits of these two together at its upper end, and the
first is still the greater. -/
theorem compare_at_greatest_exponent :
    (⟨15, Register.greatest⟩ : Decimal).Storable ∧ (⟨2, Register.greatest⟩ : Decimal).Storable ∧
      (⟨15, Register.greatest⟩ : Decimal).adjustedExponent =
        (⟨2, Register.greatest⟩ : Decimal).adjustedExponent ∧
      (⟨15, Register.greatest⟩ : Decimal).compare ⟨2, Register.greatest⟩ = .gt ∧
      (⟨2, Register.greatest⟩ : Decimal).value < (⟨15, Register.greatest⟩ : Decimal).value := by
  have hfirst : (⟨15, Register.greatest⟩ : Decimal).Storable := ⟨by decide, by decide⟩
  have hsecond : (⟨2, Register.greatest⟩ : Decimal).Storable := ⟨by decide, by decide⟩
  have hgreater : (⟨15, Register.greatest⟩ : Decimal).compare ⟨2, Register.greatest⟩ = .gt := by
    decide
  obtain ⟨hcompare, -⟩ := compare_is_numeric_order.1 _ _ hfirst hsecond
  exact ⟨hfirst, hsecond, by decide, hgreater, compare_gt_iff_gt.1 (hcompare ▸ hgreater)⟩

end Reckon.Decimal
