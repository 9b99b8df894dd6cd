import Reckon.Expr.Eval
import Reckon.Proofs.Decimal.Fractional
import Reckon.Proofs.Decimal.Order
import Reckon.Proofs.Decimal.Remainder
import Reckon.Proofs.Except
import Reckon.Proofs.Expr.Numbers

/-!
# Computed values are in normal form

An operation either ends in a rounding, or returns a constant that needs none.  The operations of
two operands are taken one after the other in `normal_operation`; a factorial multiplies numbers
that are in normal form already, by factors small enough to be moderate (`normal_factorial`).

Strategy.  The operations ask for moderate operands, and a number in normal form is moderate, so
one induction over the expression carries both: every operand is a number as it was written or a
computed one (`moderate_eval`).
-/

namespace Reckon

open Decimal

variable {limits : Limits} {a b r : Decimal}

/-! ## The operations -/

namespace Decimal

theorem normal_round (ha : a.Moderate) (hr : a.round limits = .ok r) :
    r.Normal limits.precision limits.maxExponent :=
  ha.roomy.rounds_round.normal limits.manageable hr

theorem normal_div (ha : a.Moderate) (hb : b.Moderate) (hr : div limits a b = .ok r) :
    r.Normal limits.precision limits.maxExponent := by
  by_cases hb0 : b.coefficient = 0
  · unfold div divTo at hr
    rw [if_pos (by simpa using hb0)] at hr
    cases hr
  · exact (roundsOnce_div limits ha hb hb0).rounds.normal limits.manageable hr

theorem normal_rem (ha : a.Moderate) (hb : b.Moderate) (hr : rem limits a b = .ok r) :
    r.Normal limits.precision limits.maxExponent := by
  by_cases hb0 : b.coefficient = 0
  · unfold rem at hr
    rw [if_pos (by simpa using hb0)] at hr
    cases hr
  · exact (roundsOnce_rem limits ha hb hb0).rounds.normal limits.manageable hr

theorem normal_operation (operation : Operation)
    {f : Limits → Decimal → Decimal → Except ArithmeticFault Decimal}
    (hf : operation.binary? = some f) (ha : a.Moderate) (hb : b.Moderate)
    (hr : f limits a b = .ok r) : r.Normal limits.precision limits.maxExponent := by
  have h := limits.manageable
  cases operation <;> cases hf
  case add => exact (roundsOnce_add limits ha hb).rounds.normal h hr
  case subtract => exact (roundsOnce_sub limits ha hb).rounds.normal h hr
  case multiply => exact normal_mulTo h ha hb hr
  case divide => exact normal_div ha hb hr
  case modulo => exact normal_rem ha hb hr
  case power => exact normal_pow limits ha hb hr
  case average => exact (roundsOnce_average limits ha hb).rounds.normal h hr
  case maximum => exact (roundsOnce_larger limits ha hb).rounds.normal h hr
  case minimum => exact (roundsOnce_smaller limits ha hb).rounds.normal h hr

theorem moderate_factor {n : ℕ} (hn : n < 10 ^ 7) : (ofInt n).Moderate := by
  refine ⟨?_, by simp [ofInt], by simp [ofInt]⟩
  have hdigits : (ofInt n).digits ≤ 7 := by
    rw [digits_le_iff (by norm_num)]
    simp only [ofInt, Nat.abs_cast]
    exact_mod_cast hn
  omega

/-- The factors of a factorial stay small, because larger factorials are not computed. -/
theorem le_of_not_factorialExceeds {n : ℕ} {maxExponent : ℤ}
    (h : ¬factorialExceeds n maxExponent = true) : n ≤ largestFactorialOperand := by
  by_contra hlarge
  simp [factorialExceeds, not_le.1 hlarge] at h

theorem normal_factorial {n : ℕ} (hr : Decimal.factorial limits n = .ok r) :
    r.Normal limits.precision limits.maxExponent := by
  have h := limits.manageable
  unfold Decimal.factorial at hr
  split at hr
  · cases hr
  · next hexceeds =>
    have hn := le_of_not_factorialExceeds hexceeds
    refine Except.of_foldlM ?_ (normal_one h) hr
    intro product factor hfactor next hproduct hnext
    have hsmall : factor < 10 ^ 7 := by
      unfold largestFactorialOperand at hn
      rw [List.mem_range'_1] at hfactor
      omega
    exact normal_mulTo h (hproduct.moderate h) (moderate_factor hsmall) hnext

end Decimal

/-! ## Expressions -/

/-- Whether the expression is more than a number. -/
def Expr.IsComputed : Expr → Prop
  | number _ => False
  | unary .. | binary .. => True

namespace Operator

variable {op : Operator}

theorem normal_applyBinary (ha : a.Moderate) (hb : b.Moderate)
    (hr : op.applyBinary limits a b = .ok r) : r.Normal limits.precision limits.maxExponent := by
  cases hf : op.operation.binary? with
  | none =>
      rw [applyBinary_of_binary?_eq_none hf] at hr
      cases hr
  | some f =>
      rw [applyBinary_of_binary? hf] at hr
      exact normal_operation _ hf ha hb (Except.mapError_eq_ok_iff.1 hr)

theorem normal_applyUnary (ha : a.Moderate) (hr : op.applyUnary limits a = .ok r) :
    r.Normal limits.precision limits.maxExponent := by
  unfold applyUnary at hr
  split at hr
  · exact normal_round ha.neg (Except.mapError_eq_ok_iff.1 hr)
  · unfold applyFactorial at hr
    split at hr
    · cases hr
    · split at hr
      · cases hr
      · split at hr
        · exact normal_factorial (Except.mapError_eq_ok_iff.1 hr)
        · cases hr
  · cases hr

end Operator

namespace Expr

variable {e : Expr}

/-- The value of an expression is its number, or in normal form. -/
private theorem eval_cases (he : e.Moderate) :
    ∀ {r : Decimal}, e.eval limits = .ok r →
      r.Moderate ∧ (e.IsComputed → r.Normal limits.precision limits.maxExponent) := by
  have h := limits.manageable
  induction e with
  | number value =>
      intro r hr
      cases hr
      exact ⟨he, False.elim⟩
  | unary op operand ih =>
      intro r hr
      obtain ⟨value, hvalue, hr⟩ := Except.bind_eq_ok_iff.1 hr
      have hnormal := Operator.normal_applyUnary (ih he hvalue).1 hr
      exact ⟨hnormal.moderate h, fun _ => hnormal⟩
  | binary op left right ihl ihr =>
      intro r hr
      obtain ⟨a, ha, hr⟩ := Except.bind_eq_ok_iff.1 hr
      obtain ⟨b, hb, hr⟩ := Except.bind_eq_ok_iff.1 hr
      have hnormal := Operator.normal_applyBinary (ihl he.1 ha).1 (ihr he.2 hb).1 hr
      exact ⟨hnormal.moderate h, fun _ => hnormal⟩

theorem moderate_eval (he : e.Moderate) (hr : e.eval limits = .ok r) : r.Moderate :=
  (eval_cases he hr).1

theorem normal_eval (he : e.Moderate) (hcomputed : e.IsComputed) (hr : e.eval limits = .ok r) :
    r.Normal limits.precision limits.maxExponent :=
  (eval_cases he hr).2 hcomputed

end Expr

/-! ## The main result -/

theorem Decimal.Normal.round_eq (hr : r.Normal limits.precision limits.maxExponent) :
    r.round limits = .ok r :=
  hr.roundTo_eq limits.manageable

/-- Whatever is computed from moderate numbers is in normal form, and rounding it again changes
nothing: the value of an expression that is more than a number, and the result of each of the
eleven operations by itself. -/
theorem computed_values_are_normal (limits : Limits) :
    (∀ (e : Expr) (r : Decimal), e.Moderate → e.IsComputed → e.eval limits = .ok r →
      r.Normal limits.precision limits.maxExponent ∧ r.round limits = .ok r) ∧
    ∀ (a b : Decimal) (n : ℕ) (r : Decimal), a.Moderate → b.Moderate →
      .ok r ∈ [a.round limits, a.add limits b, a.sub limits b, a.mul limits b, a.div limits b,
        a.rem limits b, a.pow limits b, a.average limits b, a.larger limits b,
        a.smaller limits b, Decimal.factorial limits n] →
      r.Normal limits.precision limits.maxExponent ∧ r.round limits = .ok r := by
  constructor
  · intro e r he hcomputed hr
    have hnormal := Expr.normal_eval he hcomputed hr
    exact ⟨hnormal, hnormal.round_eq⟩
  · intro a b n r ha hb hr
    suffices hnormal : r.Normal limits.precision limits.maxExponent from
      ⟨hnormal, hnormal.round_eq⟩
    simp only [List.mem_cons, List.not_mem_nil, or_false] at hr
    rcases hr with hr | hr | hr | hr | hr | hr | hr | hr | hr | hr | hr
    · exact normal_round ha hr.symm
    · exact normal_operation .add rfl ha hb hr.symm
    · exact normal_operation .subtract rfl ha hb hr.symm
    · exact normal_operation .multiply rfl ha hb hr.symm
    · exact normal_operation .divide rfl ha hb hr.symm
    · exact normal_operation .modulo rfl ha hb hr.symm
    · exact normal_operation .power rfl ha hb hr.symm
    · exact normal_operation .average rfl ha hb hr.symm
    · exact normal_operation .maximum rfl ha hb hr.symm
    · exact normal_operation .minimum rfl ha hb hr.symm
    · exact normal_factorial hr.symm

/-- A third, and two thirds rounded up. -/
theorem third_is_normal :
    (⟨3333333333333333333333333333, -28⟩ : Decimal).Normal 28 999999 ∧
      (⟨6666666666666666666666666667, -28⟩ : Decimal).round .default =
        .ok ⟨6666666666666666666666666667, -28⟩ := by
  have hthree : (ofInt 3).Moderate := ⟨by decide, by decide, by decide⟩
  have htwo : (ofInt 2).Moderate := ⟨by decide, by decide, by decide⟩
  have hthird := (computed_values_are_normal .default).1
    (.binary .divide (.number .one) (.number (ofInt 3))) ⟨3333333333333333333333333333, -28⟩
    ⟨moderate_one, hthree⟩ trivial (by rfl)
  have htwoThirds := (computed_values_are_normal .default).2
    (ofInt 2) (ofInt 3) 0 ⟨6666666666666666666666666667, -28⟩ htwo hthree
    (List.mem_of_getElem? (i := 4) (by rfl))
  exact ⟨hthird.1, htwoThirds.2⟩

end Reckon
