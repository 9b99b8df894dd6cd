import Reckon.Expr.Basic
import Reckon.Decimal.Text

/-!
# Writing expressions

The canonical text of an expression has no blanks, and puts every operand in parentheses that is
not a number without a sign.  So the grouping can be read off without knowing the precedences, and
a negative number is never mistaken for a subtraction.
-/

namespace Reckon.Expr

variable [Register]

/-- Whether the expression is written without parentheses as an operand. -/
def isBare : Expr → Bool
  | number value => !value.isNegative
  | _ => false

/-- The text of an expression as an operand. -/
def enclose (operand : Expr) (text : List Char) : List Char :=
  if operand.isBare then text else '(' :: text ++ [')']

/-- The characters of the canonical text. -/
def chars : Expr → List Char
  | number value => value.plainChars
  | unary op operand =>
    match op.fixing with
    | .behind => enclose operand operand.chars ++ [op.symbol]
    | .before | .between => op.symbol :: enclose operand operand.chars
  | binary op left right => enclose left left.chars ++ op.symbol :: enclose right right.chars

/-- The canonical text. -/
def render (e : Expr) : String := String.ofList e.chars

end Reckon.Expr
