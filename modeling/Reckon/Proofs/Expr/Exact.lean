import Reckon.Proofs.Expr.NormalForm

/-!
# Evaluation without rounding

The exact value of an expression is what rational arithmetic makes of it (`Expr.rational?`).  Where
that value, and the exact value of everything inside the expression, fits the limits, the
evaluation finds it.

Strategy.  Each operation rounds a number that is the exact result as soon as the exact result is
representable (`Rounds`), and the rounding keeps what fits; a power keeps the powers before the
last one as well.  The induction over the expression then only has to know that the operands are
moderate, which `Expr.moderate_eval` says.
-/

namespace Reckon

open Decimal

variable {limits : Limits} {a b r : Decimal}

/-! ## Exact values -/

/-- What the operation makes of two numbers in rational arithmetic.  A power is only looked at
when its exponent is a natural number, and a zero to the zero has no value. -/
def Operation.rational? : Operation → ℚ → ℚ → Option ℚ
  | add, x, y => some (x + y)
  | subtract, x, y => some (x - y)
  | multiply, x, y => some (x * y)
  | divide, x, y => if y = 0 then none else some (x / y)
  | modulo, x, y => if y = 0 then none else some (remainder x y)
  | power, x, y =>
    if y.den = 1 ∧ 0 ≤ y.num ∧ ¬(x = 0 ∧ y = 0) then some (x ^ y.num.toNat) else none
  | average, x, y => some ((x + y) / 2)
  | maximum, x, y => some (max x y)
  | minimum, x, y => some (min x y)
  | negate, _, _ => none
  | factorial, _, _ => none

namespace Expr

/-- The value of an expression in rational arithmetic.  Factorials have none, and neither has an
operator with the wrong number of operands. -/
def rational? : Expr → Option ℚ
  | number value => some value.value
  | unary op operand =>
    match op.operation with
    | .negate => operand.rational?.map (- ·)
    | _ => none
  | binary op left right => do op.operation.rational? (← left.rational?) (← right.rational?)

/-- The expression itself and every expression inside it. -/
def subexpressions : Expr → List Expr
  | number value => [number value]
  | unary op operand => unary op operand :: operand.subexpressions
  | binary op left right => binary op left right :: (left.subexpressions ++ right.subexpressions)

@[simp] theorem self_mem_subexpressions (e : Expr) : e ∈ e.subexpressions := by
  cases e <;> simp [subexpressions]

/-- No rounding is needed anywhere in the expression: everything in it has an exact value that
fits the limits. -/
def IsExact (limits : Limits) (e : Expr) : Prop :=
  ∀ s ∈ e.subexpressions, ∃ x, s.rational? = some x ∧ Fits limits.precision limits.maxExponent x

variable {op : Operator} {left right operand : Expr}

theorem isExact_operand (h : (unary op operand).IsExact limits) : operand.IsExact limits :=
  fun s hs => h s (by simp [subexpressions, hs])

theorem isExact_left (h : (binary op left right).IsExact limits) : left.IsExact limits :=
  fun s hs => h s (by simp [subexpressions, hs])

theorem isExact_right (h : (binary op left right).IsExact limits) : right.IsExact limits :=
  fun s hs => h s (by simp [subexpressions, hs])

end Expr

/-! ## Exact operations -/

namespace Decimal

theorem round_of_fits (ha : a.Moderate) (hfits : Fits limits.precision limits.maxExponent a.value) :
    ∃ r, a.round limits = .ok r ∧ r.value = a.value :=
  ha.roomy.rounds_round.of_fits limits.manageable hfits

private theorem pow_of_rational (ha : a.Moderate) (hb : b.Moderate) {x : ℚ}
    (hx : Operation.power.rational? a.value b.value = some x)
    (hfits : Fits limits.precision limits.maxExponent x) :
    ∃ r, pow limits a b = .ok r ∧ r.value = x := by
  obtain ⟨⟨hwhole, hnonneg, hdefined⟩, hx⟩ := Option.ite_none_right_eq_some.1 hx
  cases hx
  have hn : b.value = b.value.num.toNat := by
    rw [← Int.cast_natCast, Int.toNat_of_nonneg hnonneg]
    exact (Rat.coe_int_num_of_den_eq_one hwhole).symm
  refine pow_of_fits limits ha hb hn ?_ hfits
  by_cases hn0 : b.value.num.toNat = 0
  · left
    intro ha0
    exact hdefined ⟨ha0, by rw [hn, hn0, Nat.cast_zero]⟩
  · exact Or.inr hn0

/-- An operation whose exact result fits the limits returns it. -/
theorem operation_of_fits (operation : Operation)
    {f : Limits → Decimal → Decimal → Except ArithmeticFault Decimal}
    (hf : operation.binary? = some f) (ha : a.Moderate) (hb : b.Moderate) {x : ℚ}
    (hx : operation.rational? a.value b.value = some x)
    (hfits : Fits limits.precision limits.maxExponent x) :
    ∃ r, f limits a b = .ok r ∧ r.value = x := by
  have h := limits.manageable
  cases operation <;> cases hf
  case power => exact pow_of_rational ha hb hx hfits
  case divide =>
    obtain ⟨hb0, hx⟩ := Option.ite_none_left_eq_some.1 hx
    cases hx
    exact (roundsOnce_div limits ha hb (mt value_eq_zero_iff.2 hb0)).rounds.of_fits h hfits
  case modulo =>
    obtain ⟨hb0, hx⟩ := Option.ite_none_left_eq_some.1 hx
    cases hx
    exact (roundsOnce_rem limits ha hb (mt value_eq_zero_iff.2 hb0)).rounds.of_fits h hfits
  -- the others have an exact result whatever the operands are
  all_goals cases hx
  case add => exact (roundsOnce_add limits ha hb).rounds.of_fits h hfits
  case subtract => exact (roundsOnce_sub limits ha hb).rounds.of_fits h hfits
  case multiply => exact (roundsOnce_mulTo ha hb).rounds.of_fits h hfits
  case average => exact (roundsOnce_average limits ha hb).rounds.of_fits h hfits
  case maximum => exact (roundsOnce_larger limits ha hb).rounds.of_fits h hfits
  case minimum => exact (roundsOnce_smaller limits ha hb).rounds.of_fits h hfits

end Decimal

namespace Operator

variable {op : Operator}

theorem applyBinary_of_fits (ha : a.Moderate) (hb : b.Moderate) {x : ℚ}
    (hx : op.operation.rational? a.value b.value = some x)
    (hfits : Fits limits.precision limits.maxExponent x) :
    ∃ r, op.applyBinary limits a b = .ok r ∧ r.value = x := by
  cases hf : op.operation.binary? with
  | none =>
      generalize op.operation = operation at hf hx
      cases operation <;> cases hf <;> cases hx
  | some f =>
      obtain ⟨r, hr, hvalue⟩ := operation_of_fits _ hf ha hb hx hfits
      rw [applyBinary_of_binary? hf]
      exact ⟨r, Except.mapError_eq_ok_iff.2 hr, hvalue⟩

end Operator

/-! ## Expressions -/

/-- Where rational arithmetic needs no rounding, the evaluation finds the exact value. -/
theorem Expr.eval_eq_exact (limits : Limits) (e : Expr) (he : e.Moderate)
    (hexact : e.IsExact limits) :
    ∃ v, e.eval limits = .ok v ∧ e.rational? = some v.value := by
  induction e with
  | number value => exact ⟨value, rfl, rfl⟩
  | unary op operand ih =>
      obtain ⟨a, ha, hvalue⟩ := ih he (isExact_operand hexact)
      obtain ⟨x, hx, hfits⟩ := hexact _ (self_mem_subexpressions _)
      have hmoderate := moderate_eval (e := operand) he ha
      -- the only operation of a single operand that has an exact value is the negation
      have hnegate : op.operation = .negate ∧ x = (-a).value := by
        unfold rational? at hx
        split at hx
        · next hop =>
          rw [hvalue] at hx
          cases hx
          exact ⟨hop, (value_neg a).symm⟩
        · cases hx
      obtain ⟨hop, rfl⟩ := hnegate
      obtain ⟨r, hr, hrvalue⟩ := round_of_fits hmoderate.neg hfits
      refine ⟨r, Except.bind_eq_ok_iff.2 ⟨a, ha, ?_⟩, by rw [hx, hrvalue]⟩
      unfold Operator.applyUnary
      rw [hop]
      exact Except.mapError_eq_ok_iff.2 hr
  | binary op left right ihl ihr =>
      obtain ⟨a, ha, hleft⟩ := ihl he.1 (isExact_left hexact)
      obtain ⟨b, hb, hright⟩ := ihr he.2 (isExact_right hexact)
      obtain ⟨x, hx, hfits⟩ := hexact _ (self_mem_subexpressions _)
      have hoperation : op.operation.rational? a.value b.value = some x := by
        simpa only [rational?, hleft, hright, Option.bind_eq_bind, Option.bind_some] using hx
      obtain ⟨r, hr, hvalue⟩ := Operator.applyBinary_of_fits (moderate_eval he.1 ha)
        (moderate_eval he.2 hb) hoperation hfits
      refine ⟨r, Except.bind_eq_ok_iff.2 ⟨a, ha, Except.bind_eq_ok_iff.2 ⟨b, hb, hr⟩⟩, ?_⟩
      rw [hx, hvalue]

/-- The square of one and a half, without the twos in it. -/
private def squareModTwo : Expr :=
  .binary .modulo
    (.binary .power (.binary .add (.number ⟨5, -1⟩) (.number (ofInt 1))) (.number (ofInt 2)))
    (.number (ofInt 2))

theorem eval_eq_exact_quarter : ∃ v, squareModTwo.eval .default = .ok v ∧ v.value = 1 / 4 := by
  have hhalf : (⟨5, -1⟩ : Decimal).Moderate := ⟨by decide, by decide, by decide⟩
  have hone : (ofInt 1).Moderate := ⟨by decide, by decide, by decide⟩
  have htwo : (ofInt 2).Moderate := ⟨by decide, by decide, by decide⟩
  have hfits : ∀ d ∈ [(⟨25, -2⟩ : Decimal), ⟨225, -2⟩, ⟨15, -1⟩, ⟨5, -1⟩, ofInt 1, ofInt 2],
      Fits Limits.default.precision Limits.default.maxExponent d.value := by
    intro d hd
    refine Decimal.Normal.fits Limits.default.manageable ?_
    revert d
    unfold Decimal.Normal leading
    decide
  have hexact : squareModTwo.IsExact .default := by
    intro s hs
    simp only [squareModTwo, Expr.subexpressions, List.cons_append, List.nil_append,
      List.mem_cons, List.not_mem_nil, or_false] at hs
    rcases hs with rfl | rfl | rfl | rfl | rfl | rfl | rfl
    · exact ⟨_, by decide +kernel, hfits ⟨25, -2⟩ (by decide)⟩
    · exact ⟨_, by decide +kernel, hfits ⟨225, -2⟩ (by decide)⟩
    · exact ⟨_, by decide +kernel, hfits ⟨15, -1⟩ (by decide)⟩
    · exact ⟨_, rfl, hfits ⟨5, -1⟩ (by decide)⟩
    · exact ⟨_, rfl, hfits (ofInt 1) (by decide)⟩
    · exact ⟨_, rfl, hfits (ofInt 2) (by decide)⟩
    · exact ⟨_, rfl, hfits (ofInt 2) (by decide)⟩
  obtain ⟨v, hv, hvalue⟩ :=
    Expr.eval_eq_exact .default squareModTwo ⟨⟨⟨hhalf, hone⟩, htwo⟩, htwo⟩ hexact
  refine ⟨v, hv, ?_⟩
  have hquarter : some v.value = some (1 / 4 : ℚ) := hvalue.symm.trans (by decide +kernel)
  exact Option.some.inj hquarter

end Reckon
