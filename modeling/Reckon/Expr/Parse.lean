import Reckon.Expr.Basic
import Reckon.Decimal.Literal
import Reckon.Limits
import Reckon.Token

/-!
# Reading expressions

Tokens are taken one at a time, without looking ahead.  At every moment the reader either wants an
operand or holds one (`Stage`), and what is still open around it is a stack of levels: the right
operand of an operator whose left operand is known, or a parenthesis with the operators waiting in
front of it.

A number or a closing parenthesis completes an operand, and the operators directly in front of it
are applied at once, so they bind tighter than any operator between operands.  An operator between
operands first completes the right operands that it does not belong to (`settle`).  A closing
parenthesis, or the end of the input, completes all of them up to the innermost parenthesis
(`unwind`).

Two guards hold the depth limit: every opening makes one level more (`Stage.depth`), and every
operator applied makes the expression higher (`Subtree`).  Both report the index of the first
token that has not been taken.
-/

namespace Reckon

/-- Why tokens do not form an expression.  Positions are indices of tokens. -/
inductive ParseError where
  /-- There is no token at all. -/
  | emptyInput
  /-- A token stands where an operand is wanted. -/
  | unexpectedToken (token : Token) (position : Nat)
  /-- The input ends where an operand is wanted. -/
  | unexpectedEnd (position : Nat)
  /-- The parenthesis at the position is not closed. -/
  | unclosedParenthesis (position : Nat)
  /-- A token follows the complete expression. -/
  | trailingToken (token : Token) (position : Nat)
  /-- The expression nests deeper, or is higher, than the limit. -/
  | nestingTooDeep (limit position : Nat)
  /-- The text of a number token is no decimal literal. -/
  | invalidNumber (literal : String) (position : Nat)
  deriving DecidableEq

/-- The wording of an expression that cannot be read. -/
def ParseError.message : ParseError → String
  | emptyInput => "empty expression"
  | unexpectedToken token position => s!"unexpected token '{token.text}' at position {position}"
  | unexpectedEnd position => s!"unexpected end of input at position {position}"
  | unclosedParenthesis position => s!"unclosed parenthesis at position {position}"
  | trailingToken token position =>
    s!"unexpected trailing token '{token.text}' at position {position}"
  | nestingTooDeep limit position =>
    s!"expression nested deeper than {limit} levels at position {position}"
  | invalidNumber literal position => s!"invalid number '{literal}' at position {position}"

/-- An expression that has been read, with its height. -/
structure Subtree where
  expr : Expr
  height : Nat
  height_eq : height = expr.height

namespace Subtree

/-- A number by itself. -/
def ofNumber (value : Decimal) : Subtree := ⟨.number value, 0, rfl⟩

/-- An operator applied to one operand, unless the result is too high. -/
def unary (limit position : Nat) (op : Operator) (operand : Subtree) :
    Except ParseError Subtree :=
  if operand.height + 1 ≤ limit then
    .ok ⟨.unary op operand.expr, operand.height + 1, by simp [Expr.height, operand.height_eq]⟩
  else .error (.nestingTooDeep limit position)

/-- An operator applied to two operands, unless the result is too high. -/
def binary (limit position : Nat) (op : Operator) (left right : Subtree) :
    Except ParseError Subtree :=
  if max left.height right.height + 1 ≤ limit then
    .ok ⟨.binary op left.expr right.expr, max left.height right.height + 1,
      by simp [Expr.height, left.height_eq, right.height_eq]⟩
  else .error (.nestingTooDeep limit position)

/-- The operators waiting in front of an operand applied to it, the innermost first. -/
def applyAll (limit position : Nat) (operand : Subtree) :
    List Operator → Except ParseError Subtree
  | [] => .ok operand
  | op :: waiting => do applyAll limit position (← unary limit position op operand) waiting

end Subtree

/-- Something that is open around the operand being read. -/
inductive Level where
  /-- The right operand of an operator is being read. -/
  | rightOperand (left : Subtree) (op : Operator)
  /-- A parenthesis is open, with the operators waiting in front of it, the innermost first, and its
  position. -/
  | parenthesis (waiting : List Operator) (position : Nat)

namespace Level

/-- How many levels of nesting lie between the inside and the outside. -/
def depth : Level → Nat
  | rightOperand .. => 1
  | parenthesis waiting _ => waiting.length + 1

end Level

/-- The least precedence that an operator may have to be taken inside the innermost level. -/
def minPrecedence : List Level → Nat
  | .rightOperand _ op :: _ => op.nextMinPrecedence
  | _ => 0

/-- How deep the inside of the levels lies; outside of all it is one deep. -/
def nesting : List Level → Nat
  | [] => 1
  | level :: levels => nesting levels + level.depth

/-- What has been read so far: the levels that are open, the innermost first, and inside them
either the operators waiting in front of an operand that is wanted, or an operand. -/
inductive Stage where
  | wanting (waiting : List Operator) (levels : List Level)
  | holding (operand : Subtree) (levels : List Level)

namespace Stage

/-- Nothing has been read. -/
def start : Stage := wanting [] []

/-- How deep the place lies where the next token is read. -/
def depth : Stage → Nat
  | wanting waiting levels => nesting levels + waiting.length
  | holding _ levels => nesting levels

/-- The stage after an opening, unless it lies too deep. -/
def guardDepth (limit position : Nat) (opened : Stage) : Except ParseError Stage :=
  if opened.depth ≤ limit then .ok opened else .error (.nestingTooDeep limit position)

/-- Completes the right operands that an operator of the given precedence does not belong to. -/
def settle (limit position precedence : Nat) (operand : Subtree) :
    List Level → Except ParseError (Subtree × List Level)
  | .rightOperand left op :: levels =>
    if precedence < op.nextMinPrecedence then do
      settle limit position precedence (← Subtree.binary limit position op left operand) levels
    else .ok (operand, .rightOperand left op :: levels)
  | levels => .ok (operand, levels)

/-- Completes every right operand up to the innermost parenthesis.  The parenthesis is given back
with the operators in front of it, its position and the levels around it; none is given back when
none is open. -/
def unwind (limit position : Nat) (operand : Subtree) :
    List Level → Except ParseError (Subtree × Option (List Operator × Nat × List Level))
  | .rightOperand left op :: levels => do
    unwind limit position (← Subtree.binary limit position op left operand) levels
  | .parenthesis waiting opening :: levels => .ok (operand, some (waiting, opening, levels))
  | [] => .ok (operand, none)

/-- Takes a token where an operand is wanted. -/
def feedWanting (limit position : Nat) (token : Token) (waiting : List Operator)
    (levels : List Level) : Except ParseError Stage :=
  match token with
  | .number literal =>
    match Decimal.read literal with
    | .ok value => do
      let operand ← Subtree.applyAll limit (position + 1) (.ofNumber value) waiting
      pure (holding operand levels)
    | .error _ => .error (.invalidNumber literal position)
  | .leftParen =>
    guardDepth limit (position + 1) (wanting [] (.parenthesis waiting position :: levels))
  | token =>
    match token.operator? .before with
    | some op => guardDepth limit (position + 1) (wanting (op :: waiting) levels)
    | none => .error (.unexpectedToken token position)

/-- Takes a token that is no operator behind an operand. -/
def feedClosing (limit position : Nat) (token : Token) (operand : Subtree)
    (levels : List Level) : Except ParseError Stage := do
  match ← unwind limit position operand levels with
  | (operand, some (waiting, opening, levels)) =>
    if token = .rightParen then
      let operand ← Subtree.applyAll limit (position + 1) operand waiting
      pure (holding operand levels)
    else .error (.unclosedParenthesis opening)
  | (_, none) => .error (.trailingToken token position)

/-- Takes a token behind an operand. -/
def feedHolding (limit position : Nat) (token : Token) (operand : Subtree)
    (levels : List Level) : Except ParseError Stage :=
  match token.operator? .behind, token.operator? .between with
  | some op, _ => do
    let applied ← Subtree.unary limit (position + 1) op operand
    pure (holding applied levels)
  | none, some op => do
    let (left, levels) ← settle limit position op.precedence operand levels
    guardDepth limit (position + 1) (wanting [] (.rightOperand left op :: levels))
  | none, none => feedClosing limit position token operand levels

/-- Takes the token at the given position. -/
def feed (limit position : Nat) (token : Token) : Stage → Except ParseError Stage
  | wanting waiting levels => feedWanting limit position token waiting levels
  | holding operand levels => feedHolding limit position token operand levels

/-- The expression that has been read, when the input ends at the given position. -/
def finish (limit position : Nat) : Stage → Except ParseError Expr
  | wanting .. => .error (.unexpectedEnd position)
  | holding operand levels => do
    match ← unwind limit position operand levels with
    | (_, some (_, opening, _)) => .error (.unclosedParenthesis opening)
    | (operand, none) => pure operand.expr

/-- Takes all tokens, the first of them at the given position. -/
def run (limit : Nat) : (position : Nat) → Stage → List Token → Except ParseError Expr
  | position, stage, [] => stage.finish limit position
  | position, stage, token :: tokens =>
    match stage.feed limit position token with
    | .ok next => run limit (position + 1) next tokens
    | .error e => .error e

end Stage

/-- Reads the tokens as one expression. -/
def Expr.ofTokens (limits : Limits) : List Token → Except ParseError Expr
  | [] => .error .emptyInput
  | tokens => Stage.start.run limits.maxDepth 0 tokens

end Reckon
