import Reckon.Decimal.Order
import Reckon.Operator

/-!
# Expressions

An expression is a number, or an operator with one or two expressions as its operands.  The type
does not tie the operator to the number of operands: an expression built by hand may apply a
binary operator to one operand, and it is the evaluation that finds fault with it.
`Expr.WellFormed` says that every operator has the operands that it takes.
-/

namespace Reckon

/-- An arithmetic expression. -/
inductive Expr where
  /-- A number as it was written. -/
  | number (value : Decimal)
  /-- An operator with one operand. -/
  | unary (op : Operator) (operand : Expr)
  /-- An operator with two operands. -/
  | binary (op : Operator) (left right : Expr)
  deriving DecidableEq

namespace Expr

/-- The number of operators on the longest way down to a number. -/
def height : Expr → Nat
  | number _ => 0
  | unary _ operand => operand.height + 1
  | binary _ left right => max left.height right.height + 1

/-- Every operator stands where its place among the operands is. -/
def WellFormed : Expr → Prop
  | number _ => True
  | unary op operand => op.fixing ≠ .between ∧ operand.WellFormed
  | binary op left right => op.fixing = .between ∧ left.WellFormed ∧ right.WellFormed

/-- Whether two expressions agree, their numbers being compared by value. -/
def equiv [Register] : Expr → Expr → Bool
  | number a, number b => a.equiv b
  | unary op a, unary op' b => op == op' && a.equiv b
  | binary op a b, binary op' a' b' => op == op' && a.equiv a' && b.equiv b'
  | _, _ => false

end Expr

end Reckon
