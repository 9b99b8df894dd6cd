import Reckon.Text.Extending
import Reckon.Text.Unprintable

/-!
# Quoted text

A text or a character is quoted so that it can be shown on one line and read without doubt.  The
quote itself and the backslash get a backslash in front; tab, carriage return, line feed and the
null character have a letter of their own; and what shows nothing, or would join the character
before it, is given by its code point in hexadecimal digits.
-/

namespace Reckon.Text

/-- A character by its code point. -/
def escapeCode (c : Char) : List Char :=
  '\\' :: 'u' :: '\x7b' :: Nat.toDigits 16 c.toNat ++ ['\x7d']

/-- A character as it stands between two of the given quotes. -/
def escape (quote c : Char) : List Char :=
  if c = '\x00' then ['\\', '0']
  else if c = '\t' then ['\\', 't']
  else if c = '\r' then ['\\', 'r']
  else if c = '\n' then ['\\', 'n']
  else if c = '\\' ∨ c = quote then ['\\', c]
  else if isExtending c || isUnprintable c then escapeCode c
  else [c]

/-- A text in double quotes. -/
def quoteString (s : String) : String :=
  String.ofList ('"' :: s.toList.flatMap (escape '"') ++ ['"'])

/-- A character in single quotes. -/
def quoteChar (c : Char) : String := String.ofList ('\'' :: escape '\'' c ++ ['\''])

end Reckon.Text
