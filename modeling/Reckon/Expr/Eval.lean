import Reckon.Decimal.Extremes
import Reckon.Decimal.Factorial
import Reckon.Decimal.Power
import Reckon.Decimal.Remainder
import Reckon.Decimal.Text
import Reckon.Expr.Basic

/-!
# Evaluating expressions

Operands are evaluated before their operator, the left one before the right one, and the first
failure is the answer.  Every operator rounds its result to the limits; a number by itself keeps
its digits.  What fails is reported with the operator and the operands that it was applied to.
-/

namespace Reckon

/-- Why an expression has no value. -/
inductive EvalError where
  /-- The operator divides by zero. -/
  | divisionByZero (op : Operator) (dividend : Decimal)
  /-- The factorial of a number below zero. -/
  | factorialOfNegative (operand : Decimal)
  /-- The factorial of a number that is not whole. -/
  | factorialOfFraction (operand : Decimal)
  /-- A power that is not defined. -/
  | undefinedPower (base exponent : Decimal)
  /-- The result lies above the exponent range. -/
  | overflow (op : Operator)
  /-- The operator stands at another number of operands than it takes. -/
  | arityMismatch (op : Operator) (found : Nat)
  deriving DecidableEq

namespace EvalError

/-- The wording of an expression without value. -/
def message [Register] : EvalError → String
  | divisionByZero op dividend =>
    s!"division by zero applying '{op.symbol}' to {dividend.text}"
  | factorialOfNegative operand => s!"factorial of negative number {operand.text}"
  | factorialOfFraction operand => s!"factorial of non-integer {operand.text}"
  | undefinedPower base exponent => s!"{base.text} ^ {exponent.text} is undefined"
  | overflow op => s!"result of '{op.symbol}' is out of range"
  | arityMismatch op found => s!"operator '{op.symbol}' takes {op.arity} operand(s), got {found}"

/-- The failure of an operation, reported for the operator and the operands. -/
def ofFault (op : Operator) (left right : Decimal) : ArithmeticFault → EvalError
  | .divisionByZero => divisionByZero op left
  | .overflow => overflow op
  | .undefined => undefinedPower left right

end EvalError

variable [Register]

/-- What an operation does with two operands, if it takes two. -/
def Operation.binary? :
    Operation → Option (Limits → Decimal → Decimal → Except ArithmeticFault Decimal)
  | add => some Decimal.add
  | subtract => some Decimal.sub
  | multiply => some Decimal.mul
  | divide => some Decimal.div
  | modulo => some Decimal.rem
  | power => some Decimal.pow
  | average => some Decimal.average
  | maximum => some Decimal.larger
  | minimum => some Decimal.smaller
  | negate | factorial => none

namespace Operator

/-- The power of two operands, a failure being reported for the operator. -/
def applyPower (limits : Limits) (op : Operator) (base exponent : Decimal) :
    Except EvalError Decimal :=
  (base.pow limits exponent).mapError (.ofFault op base exponent)

/-- The value of the operator at two operands. -/
def applyBinary (limits : Limits) (op : Operator) (left right : Decimal) :
    Except EvalError Decimal :=
  if op.operation = .power then op.applyPower limits left right
  else
    match op.operation.binary? with
    | some operation => (operation limits left right).mapError (.ofFault op left right)
    | none => .error (.arityMismatch op 2)

/-- Powers are no exception: the operator does what its operation does. -/
theorem applyBinary_of_binary? {op : Operator}
    {operation : Limits → Decimal → Decimal → Except ArithmeticFault Decimal}
    (h : op.operation.binary? = some operation) (limits : Limits) (left right : Decimal) :
    op.applyBinary limits left right =
      (operation limits left right).mapError (.ofFault op left right) := by
  unfold applyBinary
  split
  · next hpower =>
    rw [hpower] at h
    cases h
    rfl
  · rw [h]

theorem applyBinary_of_binary?_eq_none {op : Operator} (h : op.operation.binary? = none)
    (limits : Limits) (left right : Decimal) :
    op.applyBinary limits left right = .error (.arityMismatch op 2) := by
  have hpower : op.operation ≠ .power := by
    intro hpower
    rw [hpower] at h
    cases h
  rw [applyBinary, if_neg hpower, h]

/-- The factorial of an operand.  Its sign is looked at before its fraction. -/
def applyFactorial (limits : Limits) (op : Operator) (operand : Decimal) :
    Except EvalError Decimal :=
  if operand.isNegative then .error (.factorialOfNegative operand)
  else if !operand.isInteger then .error (.factorialOfFraction operand)
  else
    match operand.toCount? with
    | some n => (Decimal.factorial limits n).mapError fun _ => .overflow op
    | none => .error (.overflow op)

/-- The value of the operator at one operand. -/
def applyUnary (limits : Limits) (op : Operator) (operand : Decimal) :
    Except EvalError Decimal :=
  match op.operation with
  | .negate => ((-operand).round limits).mapError fun _ => .overflow op
  | .factorial => op.applyFactorial limits operand
  | _ => .error (.arityMismatch op 1)

end Operator

/-- The value of an expression. -/
def Expr.eval (limits : Limits) : Expr → Except EvalError Decimal
  | number value => .ok value
  | unary op operand => do op.applyUnary limits (← operand.eval limits)
  | binary op left right => do
    let a ← left.eval limits
    let b ← right.eval limits
    op.applyBinary limits a b

end Reckon
