import Reckon.Proofs.Decimal.FaithfulPower
import Reckon.Proofs.Expr.NormalForm
import Reckon.Proofs.Expr.Reading

/-!
# Evaluation never fills the register

An expression with moderate numbers has the same value, or the same failure, under every faithful
register (`Expr.Moderate.eval_eq`): the operands of every operator in it are moderate, because they
are numbers as they were written or computed ones (`Expr.moderate_eval`), and on moderate operands
no operation depends on what the register makes of integers outside sixty-four bits.

The numbers in a text of fewer than `2 ^ 31` characters are moderate whatever the limits are.  So
evaluating such a text with sixty-four bits is evaluating it with exact exponents
(`evaluate_eq_of_faithful`).
-/

namespace Reckon

open Decimal Register

variable {register : Register} {limits : Limits} {a b : Decimal} {op : Operator}

/-! ## Factorials -/

theorem lnFactorialBound_eq_of_faithful (h : register.Faithful) {n : ℕ}
    (hn : n ≤ largestFactorialOperand) :
    @lnFactorialBound register n = @lnFactorialBound word64 n := by
  have hmoderate : (ofInt n).Moderate := by
    apply moderate_factor
    unfold largestFactorialOperand at hn
    omega
  have hplaces : factorialPlaces ≤ 2 ^ 20 := by decide
  unfold lnFactorialBound
  rw [Series.ln_eq_of_faithful h hmoderate hplaces]

theorem factorialExceeds_eq_of_faithful (h : register.Faithful) (n : ℕ) (maxExponent : ℤ) :
    @factorialExceeds register n maxExponent = @factorialExceeds word64 n maxExponent := by
  unfold factorialExceeds
  split
  · rfl
  · next hlarge => rw [lnFactorialBound_eq_of_faithful h (not_lt.1 hlarge)]

theorem factorial_eq_of_faithful (h : register.Faithful) (limits : Limits) (n : ℕ) :
    @Decimal.factorial register limits n = @Decimal.factorial word64 limits n := by
  have hwork := limits.manageable
  unfold Decimal.factorial
  rw [factorialExceeds_eq_of_faithful h]
  split
  · rfl
  · next hexceeds =>
    have hmoderate : ∀ factor ∈ List.range' 2 (n - 1), (ofInt factor).Moderate := by
      intro factor hfactor
      apply moderate_factor
      have hn := le_of_not_factorialExceeds hexceeds
      unfold largestFactorialOperand at hn
      rw [List.mem_range'_1] at hfactor
      omega
    -- every product on the way is in normal form
    apply Except.foldlM_congr (P := fun product =>
      product.Normal limits.precision limits.maxExponent) _ _ (normal_one hwork)
    · intro product factor hfactor hproduct
      exact (hproduct.moderate hwork).mul_eq h (hmoderate factor hfactor) limits
    · intro product factor hfactor next hproduct hnext
      exact normal_mulTo hwork (hproduct.moderate hwork) (hmoderate factor hfactor) hnext

/-! ## Operators -/

namespace Operator

/-- Each of the nine operations between two operands gives what it gives in sixty-four bits. -/
theorem applyBinary_eq_of_faithful (h : register.Faithful) (ha : a.Moderate) (hb : b.Moderate) :
    @applyBinary register limits op a b = @applyBinary word64 limits op a b := by
  have hreported : ∀ {x y : Except ArithmeticFault Decimal}, x = y →
      x.mapError (EvalError.ofFault op a b) = y.mapError (EvalError.ofFault op a b) := by
    intro x y hxy
    rw [hxy]
  unfold applyBinary
  cases op.operation
  case add => exact hreported (ha.add_eq h hb limits)
  case subtract => exact hreported (ha.sub_eq h hb limits)
  case multiply => exact hreported (ha.mul_eq h hb limits)
  case divide => exact hreported (ha.div_eq h hb limits)
  case modulo => exact hreported (ha.rem_eq h hb limits)
  case power => exact hreported (ha.pow_eq h hb limits)
  case average => exact hreported (ha.average_eq h hb limits)
  case maximum => exact hreported (ha.larger_eq h hb limits)
  case minimum => exact hreported (ha.smaller_eq h hb limits)
  case negate => rfl
  case factorial => rfl

theorem applyFactorial_eq_of_faithful (h : register.Faithful) (ha : a.Moderate) :
    @applyFactorial register limits op a = @applyFactorial word64 limits op a := by
  unfold applyFactorial
  rw [ha.roomy.isInteger_eq h, ha.roomy.toCount?_eq h]
  simp only [factorial_eq_of_faithful h]

theorem applyUnary_eq_of_faithful (h : register.Faithful) (ha : a.Moderate) :
    @applyUnary register limits op a = @applyUnary word64 limits op a := by
  unfold applyUnary
  rw [ha.neg.roomy.round_eq h, applyFactorial_eq_of_faithful h ha]

end Operator

/-! ## Expressions -/

theorem Expr.Moderate.eval_eq {e : Expr} (he : e.Moderate) (h : register.Faithful)
    (limits : Limits) : @Expr.eval register limits e = @Expr.eval word64 limits e := by
  induction e with
  | number value => rfl
  | unary op operand ih =>
      have hoperand : operand.Moderate := he
      unfold Expr.eval
      rw [ih hoperand]
      apply Except.bind_congr_of_ok
      intro value hvalue
      exact Operator.applyUnary_eq_of_faithful h (Expr.moderate_eval hoperand hvalue)
  | binary op left right ihl ihr =>
      obtain ⟨hleft, hright⟩ : left.Moderate ∧ right.Moderate := he
      unfold Expr.eval
      rw [ihl hleft, ihr hright]
      apply Except.bind_congr_of_ok
      intro a ha
      apply Except.bind_congr_of_ok
      intro b hb
      exact Operator.applyBinary_eq_of_faithful h (Expr.moderate_eval hleft ha)
        (Expr.moderate_eval hright hb)

/-! ## The main result -/

theorem evaluate_eq_of_faithful (h : register.Faithful) (limits : Limits) {source : String}
    (hlength : source.toList.length < 2 ^ 31) :
    @evaluate register limits source = @evaluate word64 limits source := by
  unfold evaluate
  apply Except.bind_congr_of_ok
  intro e he
  rw [(Expr.moderate_of_parse he hlength).eval_eq h]

/-- Under any limits, a text of fewer than `2 ^ 31` characters has the value or the error that exact
exponents give it, in sixty-four bits and in every register that holds the integers strictly
between their ends: however the register treats an integer at the ends or beyond them, the
evaluation has not put one there that matters. -/
theorem evaluate_eq_unbounded (limits : Limits) (source : String)
    (hlength : source.toList.length < 2 ^ 31) :
    @evaluate word64 limits source = @evaluate unbounded limits source ∧
      ∀ register : Register, register.Faithful →
        @evaluate register limits source = @evaluate unbounded limits source := by
  have hunbounded := evaluate_eq_of_faithful faithful_unbounded limits hlength
  constructor
  · exact hunbounded.symm
  · intro register h
    rw [evaluate_eq_of_faithful h limits hlength, hunbounded]

/-- A power close to the end of the range, and one that is far too small for the sum to show. -/
theorem distant_powers_unbounded :
    "1.5^5000000-0.1^999".toList.length < 2 ^ 31 ∧
      @evaluate word64 .default "1.5^5000000-0.1^999" =
        @evaluate unbounded .default "1.5^5000000-0.1^999" ∧
      @evaluate forgetful .default "1.5^5000000-0.1^999" =
        @evaluate unbounded .default "1.5^5000000-0.1^999" := by
  have hlength : "1.5^5000000-0.1^999".toList.length < 2 ^ 31 := by decide
  obtain ⟨hword, hregisters⟩ := evaluate_eq_unbounded .default "1.5^5000000-0.1^999" hlength
  exact ⟨hlength, hword, hregisters forgetful faithful_forgetful⟩

end Reckon
