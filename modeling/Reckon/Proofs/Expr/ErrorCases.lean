import Reckon.Expr.Eval
import Reckon.Proofs.Decimal.Whole
import Reckon.Proofs.Except

/-!
# When an operator reports an error

Every error but one is a matter of the operands: a divisor is zero, a power is not defined, the
operand of a factorial is negative or a fraction, or there are too many operands or too few.  The
limits have no part in it, and neither does the way in which the operands are written
(`errors_in_their_cases`).  Only the overflow depends on the limits.

## Strategy

Whatever ends in a rounding has no other fault than the overflow (`onlyOverflows_roundTo`), and
most operations do nothing else that can fail.  Two steps inside a power could: the reciprocal of a
power with a negative exponent is a division, but of one by a number that has been found not to be
zero (`onlyOverflows_powInt`); and a whole exponent is written out as an integer, which it is
because it is whole (`exists_toInteger?`).  What is left are the checks at the head of a division
and of a power (`fault_cases`).
-/

namespace Reckon

open Except

namespace Decimal

variable [Register] {p : ℕ} {m : ℤ} {limits : Limits} {a b d : Decimal}

/-! ## Operations that only overflow -/

/-- There is no fault but the overflow. -/
def OnlyOverflows (result : Except ArithmeticFault Decimal) : Prop := result.Avoids (· ≠ .overflow)

omit [Register] in
theorem onlyOverflows_ok (d : Decimal) : OnlyOverflows (.ok d) := avoids_ok d

omit [Register] in
theorem onlyOverflows_overflow : OnlyOverflows (.error .overflow) := avoids_error fun h => h rfl

theorem onlyOverflows_roundTo (p : ℕ) (m : ℤ) (d : Decimal) : OnlyOverflows (d.roundTo p m) := by
  unfold roundTo
  split
  · exact onlyOverflows_ok _
  · dsimp only
    split
    · exact onlyOverflows_overflow
    · split <;> exact onlyOverflows_ok _

theorem onlyOverflows_divTo (hb : ¬b.isZero) : OnlyOverflows (divTo p m a b) := by
  unfold divTo
  rw [if_neg hb]
  split <;> exact onlyOverflows_roundTo _ _ _

theorem onlyOverflows_rem (hb : ¬b.isZero) : OnlyOverflows (rem limits a b) := by
  unfold rem
  rw [if_neg hb]
  exact onlyOverflows_roundTo _ _ _

theorem onlyOverflows_larger : OnlyOverflows (larger limits a b) := by
  unfold larger
  split <;> exact onlyOverflows_roundTo _ _ _

theorem onlyOverflows_smaller : OnlyOverflows (smaller limits a b) := by
  unfold smaller
  split <;> exact onlyOverflows_roundTo _ _ _

/-! ## Powers -/

theorem onlyOverflows_powBySquaring (p : ℕ) (m : ℤ) (a : Decimal) (n : ℕ) :
    OnlyOverflows (powBySquaring p m a n) := by
  induction n using Nat.strong_induction_on with
  | _ n ih =>
      unfold powBySquaring
      split
      · exact onlyOverflows_ok _
      · next hn =>
        refine Avoids.bind (ih (n / 2) (by omega)) fun half _ => ?_
        refine Avoids.bind (onlyOverflows_roundTo _ _ _) fun square _ => ?_
        split
        · exact onlyOverflows_ok _
        · exact onlyOverflows_roundTo _ _ _

/-- The reciprocal is taken of a number other than zero. -/
theorem onlyOverflows_powInt (limits : Limits) (a : Decimal) (n : ℤ) :
    OnlyOverflows (powInt limits a n) := by
  have hpowered := onlyOverflows_powBySquaring (powDigits limits.precision n) limits.maxExponent a
    n.natAbs
  unfold powInt
  dsimp only
  split
  · exact hpowered.bind fun r _ => onlyOverflows_roundTo _ _ _
  · split
    · exact onlyOverflows_ok _
    · next fault _ hfault => exact avoids_error (hpowered fault hfault)
    · next r _ =>
      split
      · exact onlyOverflows_overflow
      · next hr => exact onlyOverflows_divTo hr

theorem onlyOverflows_powHuge : OnlyOverflows (powHuge a b) := by
  unfold powHuge
  split
  · exact onlyOverflows_ok _
  · exact onlyOverflows_overflow
  · exact onlyOverflows_overflow
  · exact onlyOverflows_ok _
  · exact onlyOverflows_ok _

/-- A whole number is written out as an integer. -/
theorem exists_toInteger? (hd : d.isInteger) : ∃ n, d.toInteger? = some n := by
  unfold toInteger?
  rw [if_pos hd]
  split <;> exact ⟨_, rfl⟩

theorem onlyOverflows_powIntegral (hb : b.isInteger) : OnlyOverflows (powIntegral limits a b) := by
  obtain ⟨n, hn⟩ := exists_toInteger? hb
  unfold powIntegral
  rw [hn]
  split
  · exact onlyOverflows_powHuge
  · exact onlyOverflows_powInt limits a n

omit [Register] in
theorem onlyOverflows_powOutOfRange (grows : Bool) : OnlyOverflows (powOutOfRange grows) := by
  cases grows
  · exact onlyOverflows_ok _
  · exact onlyOverflows_overflow

theorem onlyOverflows_powFractional : OnlyOverflows (powFractional limits a b) := by
  unfold powFractional
  split
  · exact onlyOverflows_ok _
  · dsimp only
    split
    · exact onlyOverflows_powOutOfRange _
    · unfold powByLogarithm
      dsimp only
      split
      · exact onlyOverflows_roundTo _ _ _
      · exact onlyOverflows_powOutOfRange _

theorem pow_of_zero_of_negative (ha : a.isZero) (hb : b.isNegative) :
    pow limits a b = .error .divisionByZero := by
  have hb0 : ¬b.isZero := by
    rw [isNegative_iff] at hb
    rw [isZero_iff]
    omega
  unfold pow
  rw [if_neg hb0, if_pos ha, if_pos hb]

theorem pow_of_zero_of_zero (ha : a.isZero) (hb : b.isZero) :
    pow limits a b = .error .undefined := by
  unfold pow
  rw [if_pos hb, if_pos ha]

theorem pow_of_negative_of_fraction (ha : a.isNegative) (hb : ¬b.isInteger) :
    pow limits a b = .error .undefined := by
  have ha0 : ¬a.isZero := by
    rw [isNegative_iff] at ha
    rw [isZero_iff]
    omega
  have hb0 : ¬b.isZero := fun h => hb (if_pos (Or.inr h))
  unfold pow
  rw [if_neg hb0, if_neg ha0, if_neg hb, if_pos ha]

/-- Apart from these cases a power only overflows. -/
theorem onlyOverflows_pow (hdivides : ¬(a.isZero ∧ b.isNegative)) (hzero : ¬(a.isZero ∧ b.isZero))
    (hfraction : ¬(a.isNegative ∧ ¬b.isInteger)) : OnlyOverflows (pow limits a b) := by
  unfold pow
  split
  · next hb =>
    rw [if_neg fun ha => hzero ⟨ha, hb⟩]
    exact onlyOverflows_ok _
  · split
    · next ha =>
      rw [if_neg fun hb => hdivides ⟨ha, hb⟩]
      exact onlyOverflows_ok _
    · split
      · next hb => exact onlyOverflows_powIntegral hb
      · next hb =>
        rw [if_neg fun ha => hfraction ⟨ha, hb⟩]
        exact onlyOverflows_powFractional

end Decimal

/-! ## The faults of the operations -/

/-- The operation divides by zero at the operands. -/
def Operation.DividesByZero (operation : Operation) (a b : Decimal) : Prop :=
  (operation = .divide ∨ operation = .modulo) ∧ b.value = 0 ∨
    operation = .power ∧ a.value = 0 ∧ b.value < 0

/-- The operation is a power that is not defined at the operands. -/
def Operation.PowerUndefined (operation : Operation) (a b : Decimal) : Prop :=
  operation = .power ∧
    (a.value = 0 ∧ b.value = 0 ∨ a.value < 0 ∧ ¬∃ n : ℤ, b.value = n)

/-- The operation takes a single operand. -/
def Operation.IsUnary (operation : Operation) : Prop :=
  operation = .negate ∨ operation = .factorial

open Decimal

namespace Operation

variable {limits : Limits} {operation : Operation} {a b : Decimal}

theorem binary?_eq_none_iff : operation.binary? = none ↔ operation.IsUnary := by
  unfold IsUnary
  cases operation <;> simp [binary?]

private theorem power_fault_cases (limits : Limits) (a : Decimal) (hb : b.Moderate) :
    (DividesByZero .power a b ∧ pow limits a b = .error .divisionByZero) ∨
      (PowerUndefined .power a b ∧ pow limits a b = .error .undefined) ∨
      (¬DividesByZero .power a b ∧ ¬PowerUndefined .power a b ∧
        OnlyOverflows (pow limits a b)) := by
  have hdivides : DividesByZero .power a b ↔ a.isZero ∧ b.isNegative := by
    simp [DividesByZero, value_lt_zero_iff]
  have hundefined : PowerUndefined .power a b ↔
      a.isZero ∧ b.isZero ∨ a.isNegative ∧ ¬b.isInteger := by
    rw [isInteger_iff hb]
    simp [PowerUndefined, value_lt_zero_iff]
  rw [hdivides, hundefined, not_or]
  by_cases hnegative : a.isZero ∧ b.isNegative
  · exact Or.inl ⟨hnegative, pow_of_zero_of_negative hnegative.1 hnegative.2⟩
  by_cases hzero : a.isZero ∧ b.isZero
  · exact Or.inr (Or.inl ⟨Or.inl hzero, pow_of_zero_of_zero hzero.1 hzero.2⟩)
  by_cases hfraction : a.isNegative ∧ ¬b.isInteger
  · exact Or.inr (Or.inl ⟨Or.inr hfraction,
      pow_of_negative_of_fraction hfraction.1 hfraction.2⟩)
  · exact Or.inr (Or.inr ⟨hnegative, ⟨hzero, hfraction⟩,
      onlyOverflows_pow hnegative hzero hfraction⟩)

/-- A binary operation divides by zero, or is a power that is not defined, or has no fault but the
overflow. -/
theorem fault_cases {f : Limits → Decimal → Decimal → Except ArithmeticFault Decimal}
    (hf : operation.binary? = some f) (limits : Limits) (a : Decimal) (hb : b.Moderate) :
    (operation.DividesByZero a b ∧ f limits a b = .error .divisionByZero) ∨
      (operation.PowerUndefined a b ∧ f limits a b = .error .undefined) ∨
      (¬operation.DividesByZero a b ∧ ¬operation.PowerUndefined a b ∧
        OnlyOverflows (f limits a b)) := by
  cases operation <;> cases hf
  case divide =>
    by_cases hb0 : b.isZero
    · exact Or.inl ⟨Or.inl ⟨Or.inl rfl, by simpa using hb0⟩, if_pos hb0⟩
    · exact Or.inr (Or.inr ⟨by simpa [DividesByZero] using hb0, by simp [PowerUndefined],
        onlyOverflows_divTo hb0⟩)
  case modulo =>
    by_cases hb0 : b.isZero
    · exact Or.inl ⟨Or.inl ⟨Or.inr rfl, by simpa using hb0⟩, if_pos hb0⟩
    · exact Or.inr (Or.inr ⟨by simpa [DividesByZero] using hb0, by simp [PowerUndefined],
        onlyOverflows_rem hb0⟩)
  case power => exact power_fault_cases limits a hb
  all_goals refine Or.inr (Or.inr ⟨by simp [DividesByZero], by simp [PowerUndefined], ?_⟩)
  case add => exact onlyOverflows_roundTo _ _ _
  case subtract => exact onlyOverflows_roundTo _ _ _
  case multiply => exact onlyOverflows_roundTo _ _ _
  case average => exact onlyOverflows_divTo (by decide)
  case maximum => exact onlyOverflows_larger
  case minimum => exact onlyOverflows_smaller

theorem DividesByZero.not_powerUndefined (h : operation.DividesByZero a b) :
    ¬operation.PowerUndefined a b := by
  rintro ⟨rfl, hundefined⟩
  obtain ⟨hdivision | hdivision, -⟩ | ⟨-, ha, hb⟩ := h
  · cases hdivision
  · cases hdivision
  · obtain ⟨-, hb0⟩ | ⟨ha', -⟩ := hundefined
    · exact hb.ne hb0
    · exact ha'.ne ha

theorem IsUnary.not_dividesByZero (h : operation.IsUnary) : ¬operation.DividesByZero a b := by
  rcases h with rfl | rfl <;> simp [DividesByZero]

theorem IsUnary.not_powerUndefined (h : operation.IsUnary) : ¬operation.PowerUndefined a b := by
  rcases h with rfl | rfl <;> simp [PowerUndefined]

end Operation

/-! ## The errors of the operators -/

namespace Operator

open Operation

variable {op : Operator} {a b d : Decimal} {result : Except EvalError Decimal}

/-- Which errors the operator reports at two operands. -/
structure BinaryErrors (op : Operator) (a b : Decimal) (result : Except EvalError Decimal) :
    Prop where
  /-- A division by zero names the operator and its left operand. -/
  divisionByZero_iff : ∀ op' dividend, result = .error (.divisionByZero op' dividend) ↔
    (op' = op ∧ dividend = a) ∧ op.operation.DividesByZero a b
  /-- A power that is not defined names both operands. -/
  undefinedPower_iff : ∀ base exponent, result = .error (.undefinedPower base exponent) ↔
    (base = a ∧ exponent = b) ∧ op.operation.PowerUndefined a b
  /-- Two operands are too many for an operation that takes one. -/
  arityMismatch_iff : ∀ op' found, result = .error (.arityMismatch op' found) ↔
    (op' = op ∧ found = 2) ∧ op.operation.IsUnary
  /-- Otherwise there is a value, or the overflow. -/
  ok_or_overflow : ¬op.operation.DividesByZero a b → ¬op.operation.PowerUndefined a b →
    ¬op.operation.IsUnary → (∃ r, result = .ok r) ∨ result = .error (.overflow op)

/-- Which errors the operator reports at one operand. -/
structure UnaryErrors (op : Operator) (d : Decimal) (result : Except EvalError Decimal) :
    Prop where
  /-- Its sign is looked at first. -/
  factorialOfNegative_iff : ∀ operand, result = .error (.factorialOfNegative operand) ↔
    operand = d ∧ op.operation = .factorial ∧ d.value < 0
  /-- Then it has to be whole. -/
  factorialOfFraction_iff : ∀ operand, result = .error (.factorialOfFraction operand) ↔
    operand = d ∧ op.operation = .factorial ∧ 0 ≤ d.value ∧ ¬∃ n : ℤ, d.value = n
  /-- One operand is too few for an operation that takes two. -/
  arityMismatch_iff : ∀ op' found, result = .error (.arityMismatch op' found) ↔
    (op' = op ∧ found = 1) ∧ ¬op.operation.IsUnary
  /-- Otherwise there is a value, or the overflow. -/
  ok_or_overflow : op.operation.IsUnary →
    (op.operation = .factorial → 0 ≤ d.value ∧ ∃ n : ℤ, d.value = n) →
    (∃ r, result = .ok r) ∨ result = .error (.overflow op)

theorem binaryErrors_applyBinary (limits : Limits) (op : Operator) (a : Decimal) (hb : b.Moderate) :
    BinaryErrors op a b (op.applyBinary limits a b) := by
  cases hf : op.operation.binary? with
  | none =>
      rw [applyBinary_of_binary?_eq_none hf]
      have hunary := binary?_eq_none_iff.1 hf
      have hdivides := hunary.not_dividesByZero (a := a) (b := b)
      have hundefined := hunary.not_powerUndefined (a := a) (b := b)
      constructor <;> simp [hunary, hdivides, hundefined, eq_comm]
  | some f =>
      have hunary : ¬op.operation.IsUnary := by
        rw [← binary?_eq_none_iff, hf]
        simp
      rw [applyBinary_of_binary? hf]
      obtain ⟨hdivides, hr⟩ | ⟨hundefined, hr⟩ | ⟨hdivides, hundefined, hr⟩ :=
        fault_cases hf limits a hb
      · have hundefined := hdivides.not_powerUndefined
        rw [hr]
        constructor <;>
          simp [Except.mapError, EvalError.ofFault, hunary, hdivides, hundefined, eq_comm]
      · have hdivides := mt DividesByZero.not_powerUndefined (not_not.2 hundefined)
        rw [hr]
        constructor <;>
          simp [Except.mapError, EvalError.ofFault, hunary, hdivides, hundefined, eq_comm]
      · cases hresult : f limits a b with
        | ok r => constructor <;> simp [Except.mapError, hunary, hdivides, hundefined]
        | error fault =>
            obtain rfl := not_not.1 (hr fault hresult)
            constructor <;> simp [Except.mapError, EvalError.ofFault, hunary, hdivides, hundefined]

/-- An operand that the operation is defined at leaves no error but the overflow. -/
private theorem UnaryErrors.of_ok_or_overflow (hunary : op.operation.IsUnary)
    (hwhole : op.operation = .factorial → 0 ≤ d.value ∧ ∃ n : ℤ, d.value = n)
    (hresult : (∃ r, result = .ok r) ∨ result = .error (.overflow op)) :
    UnaryErrors op d result := by
  have hnegative : op.operation = .factorial → ¬d.value < 0 := fun h => not_lt.2 (hwhole h).1
  obtain ⟨r, rfl⟩ | rfl := hresult <;> constructor <;> simp_all

private theorem mapError_const_cases (x : Except ArithmeticFault Decimal) (e : EvalError) :
    (∃ r, x.mapError (fun _ => e) = .ok r) ∨ x.mapError (fun _ => e) = .error e := by
  cases x with
  | error fault => exact Or.inr rfl
  | ok r => exact Or.inl ⟨r, rfl⟩

private theorem unaryErrors_applyFactorial (limits : Limits) (hop : op.operation = .factorial)
    (hd : d.Moderate) : UnaryErrors op d (op.applyFactorial limits d) := by
  have hunary : Operation.factorial.IsUnary := Or.inr rfl
  unfold applyFactorial
  by_cases hnegative : d.isNegative
  · have hvalue := value_lt_zero_iff.2 (isNegative_iff.1 hnegative)
    rw [if_pos hnegative]
    constructor <;> simp [hop, hunary, hvalue, eq_comm (a := d)]
  have hvalue : 0 ≤ d.value := not_lt.1 (mt value_lt_zero_iff.1 (mt isNegative_iff.2 hnegative))
  rw [if_neg hnegative]
  by_cases hwhole : d.isInteger
  · rw [hwhole, if_neg (by simp)]
    refine .of_ok_or_overflow (hop ▸ hunary)
      (fun _ => ⟨hvalue, (isInteger_iff hd).1 hwhole⟩) ?_
    cases d.toCount? with
    | none => exact Or.inr rfl
    | some n => exact mapError_const_cases (Decimal.factorial limits n) (.overflow op)
  · have hfraction := mt (isInteger_iff hd).2 hwhole
    rw [if_pos (by simpa using hwhole)]
    constructor <;> simp [hop, hunary, hvalue, hfraction, eq_comm (a := d)]

theorem unaryErrors_applyUnary (limits : Limits) (op : Operator) (hd : d.Moderate) :
    UnaryErrors op d (op.applyUnary limits d) := by
  unfold applyUnary
  split
  · next hop =>
    exact .of_ok_or_overflow (Or.inl hop) (fun h => absurd (hop.symm.trans h) (by simp))
      (mapError_const_cases _ _)
  · next hop => exact unaryErrors_applyFactorial limits hop hd
  · next hnegate hfactorial =>
    have hfactorial : op.operation ≠ .factorial := hfactorial
    have hunary : ¬op.operation.IsUnary := fun h => h.elim hnegate hfactorial
    constructor <;> simp [hunary, hfactorial, eq_comm (a := op), eq_comm (a := 1)]

/-- Every error arises in its cases and in no others, whatever the limits are and however the
operands are written: a division by zero, a power that is not defined, the factorial of a negative
number or of a fraction, and another number of operands than the operation takes.  In all other
cases there is a value or the overflow. -/
theorem errors_in_their_cases (limits : Limits) (op : Operator) (a : Decimal) (hb : b.Moderate)
    (hd : d.Moderate) :
    BinaryErrors op a b (op.applyBinary limits a b) ∧ UnaryErrors op d (op.applyUnary limits d) :=
  ⟨binaryErrors_applyBinary limits op a hb, unaryErrors_applyUnary limits op hd⟩

/-- A zero is a zero with any exponent, and minus one is negative with a zero behind the point, so
this power divides by zero.  A factorial looks at the sign of its operand before its fraction. -/
theorem reciprocal_of_zero_reported :
    (⟨-10, -1⟩ : Decimal).Moderate ∧ (⟨-25, -1⟩ : Decimal).Moderate ∧
      Operator.power.applyBinary .default ⟨0, 5⟩ ⟨-10, -1⟩ =
        .error (.divisionByZero .power ⟨0, 5⟩) ∧
      Operator.factorial.applyUnary .default ⟨-25, -1⟩ =
        .error (.factorialOfNegative ⟨-25, -1⟩) := by
  have hexponent : (⟨-10, -1⟩ : Decimal).Moderate := ⟨by decide, by decide, by decide⟩
  have hoperand : (⟨-25, -1⟩ : Decimal).Moderate := ⟨by decide, by decide, by decide⟩
  obtain ⟨hpower, -⟩ := errors_in_their_cases .default .power ⟨0, 5⟩ hexponent hoperand
  obtain ⟨-, hfactorial⟩ := errors_in_their_cases .default .factorial ⟨0, 5⟩ hexponent hoperand
  refine ⟨hexponent, hoperand, (hpower.divisionByZero_iff _ _).2 ⟨⟨rfl, rfl⟩, Or.inr ?_⟩,
    (hfactorial.factorialOfNegative_iff _).2 ⟨rfl, rfl, ?_⟩⟩
  · exact ⟨rfl, by simp, value_lt_zero_iff.2 (by decide)⟩
  · exact value_lt_zero_iff.2 (by decide)

end Operator

end Reckon
