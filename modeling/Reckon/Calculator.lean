import Reckon.Expr.Eval
import Reckon.Expr.Parse
import Reckon.Token.Scan

/-!
# From text to value

The calculator reads a text in three stages: tokens, an expression, a value.  Each stage has
errors of its own, and the first that arises is the answer.
-/

namespace Reckon

/-- Why a text has no value. -/
inductive CalcError where
  | scan (e : ScanError)
  | parse (e : ParseError)
  | eval (e : EvalError)
  deriving DecidableEq

/-- The wording of a text without value: that of the stage that failed. -/
def CalcError.message [Register] : CalcError → String
  | scan e => e.message
  | parse e => e.message
  | eval e => e.message

/-- Reads a text as an expression. -/
def parse (limits : Limits) (source : String) : Except CalcError Expr := do
  let tokens ← (Token.scan source).mapError .scan
  (Expr.ofTokens limits tokens).mapError .parse

/-- The value of a text. -/
def evaluate [Register] (limits : Limits) (source : String) : Except CalcError Decimal := do
  let e ← parse limits source
  (e.eval limits).mapError .eval

end Reckon
