import Reckon.Expr.Eval

/-!
# The operators applied in an evaluation

Every operator is noted with its operands and its outcome when it is applied, so the operators of
an expression are noted in the order of their application, and the first that fails is the last
that is noted.  The value of the whole does not depend on the notes.
-/

namespace Reckon

/-- An operator, the operands that it was applied to, and what came of it. -/
inductive Application where
  | unary (op : Operator) (operand : Decimal) (outcome : Except EvalError Decimal)
  | binary (op : Operator) (left right : Decimal) (outcome : Except ArithmeticFault Decimal)

variable [Register]

namespace Expr

/-- The note of an operator applied to two operands, if it takes two. -/
def noteBinary (limits : Limits) (op : Operator) (left right : Decimal) : List Application :=
  match op.operation.binary? with
  | some operation => [.binary op left right (operation limits left right)]
  | none => []

/-- The value of an expression, and in front of the earlier notes those of its operators, the last
one first. -/
def evalNoting (limits : Limits) : Expr → List Application →
    Except EvalError Decimal × List Application
  | number value, notes => (.ok value, notes)
  | unary op operand, notes =>
    match operand.evalNoting limits notes with
    | (.ok a, notes) =>
      let outcome := op.applyUnary limits a
      (outcome, .unary op a outcome :: notes)
    | failed => failed
  | binary op left right, notes =>
    match left.evalNoting limits notes with
    | (.ok a, notes) =>
      match right.evalNoting limits notes with
      | (.ok b, notes) => (op.applyBinary limits a b, noteBinary limits op a b ++ notes)
      | failed => failed
    | failed => failed

/-- The operators applied in the evaluation of an expression, in order. -/
def applications (limits : Limits) (e : Expr) : List Application :=
  (e.evalNoting limits []).2.reverse

end Expr

end Reckon
