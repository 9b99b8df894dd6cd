import Reckon.Decimal.Basic

/-!
# Reading decimals

A literal is a run of digits, and after a point a second one; a sign may stand in front.  It is
read without loss: all of its digits make the coefficient, and the digits behind the point are
counted in the exponent.
-/

namespace Reckon

/-- A text that is no decimal literal. -/
structure LiteralError where
  text : String
  deriving DecidableEq

/-- The wording of a rejected literal. -/
def LiteralError.message (e : LiteralError) : String := s!"invalid decimal literal '{e.text}'"

namespace Decimal

/-- The number with the given digits before and behind the point. -/
def ofDigits (integral fraction : List Char) : Decimal :=
  ⟨Nat.ofDigitChars 10 (integral ++ fraction) 0, -fraction.length⟩

/-- Reads a literal without sign: digits, and if a point follows them, digits behind it. -/
def readUnsigned? (text : List Char) : Option Decimal :=
  let integral := text.takeWhile Char.isDigit
  match text.dropWhile Char.isDigit with
  | [] => if integral.isEmpty then none else some (ofDigits integral [])
  | '.' :: fraction =>
    if integral.isEmpty || fraction.isEmpty || !fraction.all Char.isDigit then none
    else some (ofDigits integral fraction)
  | _ => none

/-- Reads a literal with or without a sign. -/
def readChars? : List Char → Option Decimal
  | '-' :: text => (readUnsigned? text).map (-·)
  | '+' :: text => readUnsigned? text
  | text => readUnsigned? text

/-- Reads a literal, or hands back the text that is none. -/
def read (text : String) : Except LiteralError Decimal :=
  match readChars? text.toList with
  | some d => .ok d
  | none => .error ⟨text⟩

end Decimal

end Reckon
