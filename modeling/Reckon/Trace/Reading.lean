import Reckon.Expr.Parse

/-!
# The operators met while reading

Each operator between operands is noted in the moment that it is taken: after the right operands
that it does not belong to are complete, and before its own right operand is opened.  So it is
noted even where what follows it cannot be read.
-/

namespace Reckon

/-- An operator between operands that has been taken from the tokens. -/
structure TakenOperator where
  op : Operator
  /-- The index of its token. -/
  position : Nat
  /-- The least precedence that could be taken there. -/
  minPrecedence : Nat
  deriving DecidableEq

namespace Stage

/-- The operator between operands that is taken with a token, if one is. -/
def taken? (limit position : Nat) (token : Token) : Stage → Option TakenOperator
  | wanting .. => none
  | holding operand levels =>
    match token.operator? .between with
    | some op =>
      match settle limit position op.precedence operand levels with
      | .ok (_, levels) => some ⟨op, position, Reckon.minPrecedence levels⟩
      | .error _ => none
    | none => none

/-- The operators between operands that are taken with all tokens, in order. -/
def takenAll (limit : Nat) : (position : Nat) → Stage → List Token → List TakenOperator
  | _, _, [] => []
  | position, stage, token :: tokens =>
    (stage.taken? limit position token).toList ++
      match stage.feed limit position token with
      | .ok next => takenAll limit (position + 1) next tokens
      | .error _ => []

end Stage

end Reckon
