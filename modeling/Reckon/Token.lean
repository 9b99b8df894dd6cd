import Reckon.Operator

/-!
# Tokens

An expression is written with numbers, operator symbols and two parentheses.  A number token keeps
its text, so that no digit is lost before the number is read.
-/

namespace Reckon

/-- A unit of the text of an expression. -/
inductive Token where
  | number (text : String)
  | symbol (c : Char)
  | leftParen
  | rightParen
  deriving DecidableEq

namespace Token

/-- The token as it is written. -/
def text : Token → String
  | number text => text
  | symbol c => c.toString
  | leftParen => "("
  | rightParen => ")"

/-- The operator that a token is at the given place, if it is one. -/
def operator? (fixing : Fixing) : Token → Option Operator
  | symbol c => Operator.find? c fixing
  | _ => none

theorem eq_symbol_of_operator? {fixing : Fixing} {token : Token} {op : Operator}
    (h : token.operator? fixing = some op) : token = symbol op.symbol ∧ op.fixing = fixing := by
  cases token with
  | symbol c =>
    obtain ⟨hs, hf⟩ := Operator.eq_of_find? h
    exact ⟨congrArg symbol hs.symm, hf⟩
  | _ => cases h

end Token

end Reckon
