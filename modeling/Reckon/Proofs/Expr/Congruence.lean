import Reckon.Proofs.Decimal.Congruence
import Reckon.Proofs.Expr.NormalForm

/-!
# Equality of numbers is a congruence

Operators compute with numbers, not with the terms that numbers are written in: operands that are
equal give results that are equal, or the same failure (`Operator.applyBinary_congr`).

Strategy.  Nearly every operation rounds its exact result once, and the exact result is a function
of the values (`Decimal.map_value_eq_of_roundsOnce`).  A quotient and a remainder fail at a zero
divisor first, and for a power `Decimal.map_value_pow_eq` takes the place of the one rounding.
-/

namespace Reckon

open Decimal

variable {p : ℕ} {m : ℤ} {a a' b b' : Decimal}

/-! ## Operations -/

namespace Decimal

/-- An operation that rounds a function of the values once cannot tell equal numbers apart. -/
theorem map_value_eq_of_roundsOnce (exact : ℚ → ℚ → ℚ)
    {f : Decimal → Decimal → Except ArithmeticFault Decimal} (h : Manageable p m)
    (hab : SameNumber a a') (hbb : SameNumber b b')
    (hf : RoundsOnce p m (exact a.value b.value) (f a b))
    (hf' : RoundsOnce p m (exact a'.value b'.value) (f a' b')) :
    (f a b).map value = (f a' b').map value := by
  rw [hf.map_value h, hf'.map_value h, hab.value_eq, hbb.value_eq]

theorem map_value_div_eq (limits : Limits) (hab : SameNumber a a') (hbb : SameNumber b b') :
    (div limits a b).map value = (div limits a' b').map value := by
  by_cases hb0 : b.coefficient = 0
  · have hb0' := hbb.coefficient_eq_zero_iff.1 hb0
    unfold div divTo
    rw [if_pos (by simpa using hb0), if_pos (by simpa using hb0')]
  · exact map_value_eq_of_roundsOnce (· / ·) limits.manageable hab hbb
      (roundsOnce_div limits hab.left hbb.left hb0)
      (roundsOnce_div limits hab.right hbb.right (mt hbb.coefficient_eq_zero_iff.2 hb0))

theorem map_value_rem_eq (limits : Limits) (hab : SameNumber a a') (hbb : SameNumber b b') :
    (rem limits a b).map value = (rem limits a' b').map value := by
  by_cases hb0 : b.coefficient = 0
  · have hb0' := hbb.coefficient_eq_zero_iff.1 hb0
    unfold rem
    rw [if_pos (by simpa using hb0), if_pos (by simpa using hb0')]
  · exact map_value_eq_of_roundsOnce remainder limits.manageable hab hbb
      (roundsOnce_rem limits hab.left hbb.left hb0)
      (roundsOnce_rem limits hab.right hbb.right (mt hbb.coefficient_eq_zero_iff.2 hb0))

/-- No operation can tell equal numbers apart. -/
theorem map_value_operation_eq (limits : Limits) (operation : Operation)
    {f : Limits → Decimal → Decimal → Except ArithmeticFault Decimal}
    (hf : operation.binary? = some f) (hab : SameNumber a a') (hbb : SameNumber b b') :
    (f limits a b).map value = (f limits a' b').map value := by
  have h := limits.manageable
  cases operation <;> cases hf
  case add =>
    exact map_value_eq_of_roundsOnce (· + ·) h hab hbb
      (roundsOnce_add limits hab.left hbb.left) (roundsOnce_add limits hab.right hbb.right)
  case subtract =>
    exact map_value_eq_of_roundsOnce (· - ·) h hab hbb
      (roundsOnce_sub limits hab.left hbb.left) (roundsOnce_sub limits hab.right hbb.right)
  case multiply =>
    exact map_value_eq_of_roundsOnce (· * ·) h hab hbb
      (roundsOnce_mulTo hab.left hbb.left) (roundsOnce_mulTo hab.right hbb.right)
  case divide => exact map_value_div_eq limits hab hbb
  case modulo => exact map_value_rem_eq limits hab hbb
  case power => exact map_value_pow_eq limits hab hbb
  case average =>
    exact map_value_eq_of_roundsOnce (fun x y => (x + y) / 2) h hab hbb
      (roundsOnce_average limits hab.left hbb.left) (roundsOnce_average limits hab.right hbb.right)
  case maximum =>
    exact map_value_eq_of_roundsOnce max h hab hbb
      (roundsOnce_larger limits hab.left hbb.left) (roundsOnce_larger limits hab.right hbb.right)
  case minimum =>
    exact map_value_eq_of_roundsOnce min h hab hbb
      (roundsOnce_smaller limits hab.left hbb.left) (roundsOnce_smaller limits hab.right hbb.right)

/-- Equal as numbers, and found equal when they are compared. -/
def Equal (a a' : Decimal) : Prop := a.value = a'.value ∧ a.equiv a' = true

theorem SameNumber.equal (h : SameNumber a a') : Equal a a' :=
  ⟨h.value_eq, (h.left.equiv_iff h.right).2 h.value_eq⟩

end Decimal

/-! ## Outcomes -/

/-- The same failure: the operators are the same, and the operands that are named are equal
numbers. -/
def EvalError.Same : EvalError → EvalError → Prop
  | .divisionByZero op dividend, .divisionByZero op' dividend' =>
    op = op' ∧ dividend.Equal dividend'
  | .factorialOfNegative operand, .factorialOfNegative operand' => operand.Equal operand'
  | .factorialOfFraction operand, .factorialOfFraction operand' => operand.Equal operand'
  | .undefinedPower base exponent, .undefinedPower base' exponent' =>
    base.Equal base' ∧ exponent.Equal exponent'
  | .overflow op, .overflow op' => op = op'
  | .arityMismatch op found, .arityMismatch op' found' => op = op' ∧ found = found'
  | _, _ => False

/-- Two equal numbers, or the same failure twice. -/
def SameOutcome : Except EvalError Decimal → Except EvalError Decimal → Prop
  | .ok r, .ok r' => r.Equal r'
  | .error e, .error e' => e.Same e'
  | _, _ => False

theorem EvalError.same_ofFault (op : Operator) (hab : SameNumber a a') (hbb : SameNumber b b')
    (fault : ArithmeticFault) : Same (ofFault op a b fault) (ofFault op a' b' fault) := by
  cases fault with
  | divisionByZero => exact ⟨rfl, hab.equal⟩
  | overflow => exact rfl
  | undefined => exact ⟨hab.equal, hbb.equal⟩

/-! ## The main result -/

namespace Operator

/-- Equal operands, however they are written, give equal results or the same failure. -/
theorem applyBinary_congr (limits : Limits) (op : Operator) (ha : a.Moderate) (ha' : a'.Moderate)
    (hb : b.Moderate) (hb' : b'.Moderate) (hab : a.equiv a' = true) (hbb : b.equiv b' = true) :
    SameOutcome (op.applyBinary limits a b) (op.applyBinary limits a' b') := by
  have hab : SameNumber a a' := ⟨ha, ha', (ha.equiv_iff ha').1 hab⟩
  have hbb : SameNumber b b' := ⟨hb, hb', (hb.equiv_iff hb').1 hbb⟩
  cases hf : op.operation.binary? with
  | none =>
      rw [applyBinary_of_binary?_eq_none hf, applyBinary_of_binary?_eq_none hf]
      exact ⟨rfl, rfl⟩
  | some f =>
      rw [applyBinary_of_binary? hf, applyBinary_of_binary? hf]
      obtain ⟨fault, hfault, hfault'⟩ | ⟨r, r', hr, hr', hvalue⟩ := Except.map_eq_map_iff.1
        (map_value_operation_eq limits op.operation hf hab hbb)
      · rw [hfault, hfault']
        exact EvalError.same_ofFault op hab hbb fault
      · have hresults : SameNumber r r' :=
          ⟨(normal_operation _ hf ha hb hr).moderate limits.manageable,
            (normal_operation _ hf ha' hb' hr').moderate limits.manageable, hvalue⟩
        rw [hr, hr']
        exact hresults.equal

/-- Two and a half to the power of three, with zeros at the ends and without them. -/
theorem two_and_a_half_cubed :
    SameOutcome (power.applyBinary .default ⟨2500, -3⟩ ⟨3, 0⟩)
      (power.applyBinary .default ⟨25, -1⟩ ⟨300, -2⟩) :=
  applyBinary_congr .default power ⟨by decide, by decide, by decide⟩
    ⟨by decide, by decide, by decide⟩ ⟨by decide, by decide, by decide⟩
    ⟨by decide, by decide, by decide⟩ (by decide) (by decide)

end Operator

end Reckon
