import Reckon.Calculator
import Reckon.Expr.Render
import Reckon.Text.Quoted
import Reckon.Trace.Evaluation
import Reckon.Trace.Reading

/-!
# Traces

A trace tells what happened on the way from a text to its value, one event a line.  Each event
belongs to one phase of the calculation, and a reader of the trace chooses phases; `trace` gives
the events of all of them in the order in which they happen.
-/

namespace Reckon

/-- A phase of the calculation. -/
inductive Phase where
  | tokenize
  | parse
  | eval
  deriving DecidableEq

/-- The word for a phase. -/
def Phase.name : Phase → String
  | tokenize => "tokenize"
  | parse => "parse"
  | eval => "eval"

/-- Something that happens in a calculation. -/
inductive Event where
  /-- The source has been cut into so many tokens. -/
  | tokens (count : Nat) (source : String)
  /-- A character starts no token. -/
  | unrecognized (e : ScanError)
  /-- An operator between operands has been taken. -/
  | taken (op : TakenOperator)
  /-- The expression is complete. -/
  | parsed (e : Expr)
  /-- An operator has been applied. -/
  | applied (application : Application)

/-- The phase that an event belongs to. -/
def Event.phase : Event → Phase
  | tokens .. | unrecognized _ => .tokenize
  | taken _ | parsed _ => .parse
  | applied _ => .eval

/-! ## The text of an event -/

/-- A record: its name, and its fields with their values. -/
def showRecord (name : String) (fields : List (String × String)) : String :=
  name ++ " \x7b " ++ ", ".intercalate (fields.map fun (field, value) => s!"{field}: {value}") ++
    " \x7d"

/-- The parts of a decimal. -/
def Decimal.parts (d : Decimal) : String :=
  showRecord "Decimal" [("coefficient", toString d.coefficient), ("exponent", toString d.exponent)]

/-- The cause of a failed operation. -/
def ArithmeticFault.parts : ArithmeticFault → String
  | divisionByZero => "DivisionByZero"
  | overflow => "Overflow"
  | undefined => "Undefined"

/-- The cause of a failed evaluation and what it carries. -/
def EvalError.parts : EvalError → String
  | divisionByZero op dividend =>
    showRecord "DivisionByZero"
      [("operator", Text.quoteChar op.symbol), ("dividend", dividend.parts)]
  | factorialOfNegative operand => showRecord "FactorialOfNegative" [("operand", operand.parts)]
  | factorialOfFraction operand => showRecord "FactorialOfFraction" [("operand", operand.parts)]
  | undefinedPower base exponent =>
    showRecord "UndefinedPower" [("base", base.parts), ("exponent", exponent.parts)]
  | overflow op => showRecord "Overflow" [("operator", Text.quoteChar op.symbol)]
  | arityMismatch op found =>
    showRecord "ArityMismatch"
      [("operator", Text.quoteChar op.symbol), ("expected", toString op.arity),
        ("found", toString found)]

/-- An outcome: the value, or the cause of the failure. -/
def showOutcome {ε : Type} (cause : ε → String) : Except ε Decimal → String
  | .ok value => s!"Ok({value.parts})"
  | .error e => s!"Err({cause e})"

variable [Register]

/-- The text of an application. -/
def Application.text : Application → String
  | unary op operand outcome =>
    s!"{op.symbol}({operand.text}) = {showOutcome EvalError.parts outcome}"
  | binary op left right outcome =>
    s!"{left.text} {op.symbol} {right.text} = {showOutcome ArithmeticFault.parts outcome}"

/-- The line of an event: how closely it follows the calculation, its phase and what happened.

The level and the phase, up to the colon, are put in front of the text by the writer of the trace.
They are assumed here to be in its plain format, which has no time and no colors. -/
def Event.line : Event → String
  | tokens count source => s!"DEBUG tokenize: {count} token(s) from {Text.quoteString source}"
  | unrecognized e => s!"DEBUG tokenize: unrecognized {Text.quoteChar e.character} at {e.position}"
  | taken op =>
    s!"TRACE parse: infix '{op.op.symbol}' at {op.position} (min {op.minPrecedence})"
  | parsed e => s!"DEBUG parse: parsed {e.render}"
  | applied application => s!"TRACE eval: {application.text}"

/-! ## The events of a calculation -/

/-- The events of reading tokens as an expression, and of evaluating it. -/
def traceTokens (limits : Limits) (tokens : List Token) : List Event :=
  (Stage.start.takenAll limits.maxDepth 0 tokens).map .taken ++
    match Expr.ofTokens limits tokens with
    | .ok e => .parsed e :: (e.applications limits).map .applied
    | .error _ => []

/-- The events on the way from a text to its value. -/
def trace (limits : Limits) (source : String) : List Event :=
  match Token.scan source with
  | .ok tokens => .tokens tokens.length source :: traceTokens limits tokens
  | .error e => [.unrecognized e]

end Reckon
