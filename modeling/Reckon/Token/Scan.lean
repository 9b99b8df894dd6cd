import Reckon.Token

/-!
# Reading tokens

The text is cut into tokens from the front.  Blanks separate tokens and are dropped.  A number
takes as many digits as follow one another, and a point with digits behind it; a point that no
digit follows is left over, and since no token starts with a point it is the first character that
is not recognized.  Positions count characters.

The scanner has its own list of the characters that are symbols (`symbolChars`) and does not look
operators up.  That the list holds the symbols of all operators, and nothing else, is a theorem
(`mem_symbolChars_iff`).
-/

namespace Reckon

/-- A character that starts no token, and where it stands. -/
structure ScanError where
  character : Char
  position : Nat
  deriving DecidableEq

/-- The wording of an unrecognized character. -/
def ScanError.message (e : ScanError) : String :=
  s!"unrecognized character '{e.character}' at position {e.position}"

namespace Token

/-- Whether the character only separates tokens. -/
def isBlank (c : Char) : Bool :=
  c == ' ' || c == '\t' || c == '\r' || c == '\n' || c == '\x0c'

/-- The number at the front of the text and what follows it: a run of digits, and a point with a
second run if there is one. -/
def splitNumber (text : List Char) : List Char × List Char :=
  let integral := text.takeWhile Char.isDigit
  match text.dropWhile Char.isDigit with
  | '.' :: rest =>
    let fraction := rest.takeWhile Char.isDigit
    if fraction.isEmpty then (integral, '.' :: rest)
    else (integral ++ '.' :: fraction, rest.dropWhile Char.isDigit)
  | rest => (integral, rest)

/-- Nothing is lost in the split. -/
theorem splitNumber_append (text : List Char) :
    (splitNumber text).1 ++ (splitNumber text).2 = text := by
  unfold splitNumber
  have hsplit : text.takeWhile Char.isDigit ++ text.dropWhile Char.isDigit = text :=
    List.takeWhile_append_dropWhile
  split
  next rest hrest =>
    rw [hrest] at hsplit
    dsimp only
    split
    · exact hsplit
    · rw [List.append_assoc, List.cons_append, List.takeWhile_append_dropWhile, hsplit]
  next => exact hsplit

/-- A text that starts with a digit starts with a number. -/
theorem splitNumber_fst_ne_nil {c : Char} {text : List Char} (h : c.isDigit) :
    (splitNumber (c :: text)).1 ≠ [] := by
  unfold splitNumber
  rw [List.takeWhile_cons_of_pos h]
  split
  · dsimp only
    split <;> simp
  · simp

theorem length_splitNumber_lt {c : Char} {text : List Char} (h : c.isDigit) :
    (splitNumber (c :: text)).2.length < (c :: text).length := by
  have hsum := congrArg List.length (splitNumber_append (c :: text))
  have hpos := List.length_pos_iff.2 (@splitNumber_fst_ne_nil c text h)
  rw [List.length_append] at hsum
  omega

/-- The characters that are symbols. -/
def symbolChars : List Char := ['-', '+', '*', '/', '%', '^', '@', '$', '&', '~', '!']

/-- The token that a single character is, if it is one. -/
def ofChar? (c : Char) : Option Token :=
  if c = '(' then some leftParen
  else if c = ')' then some rightParen
  else if c ∈ symbolChars then some (symbol c)
  else none

/-- Cuts the text that starts at `position` into tokens; those before it are in `before`, the last
one first. -/
def scanFrom (before : List Token) (position : Nat) (text : List Char) :
    Except ScanError (List Token) :=
  match text with
  | [] => .ok before.reverse
  | c :: rest =>
    if isBlank c then scanFrom before (position + 1) rest
    else if _h : c.isDigit then
      scanFrom (number (String.ofList (splitNumber (c :: rest)).1) :: before)
        (position + (splitNumber (c :: rest)).1.length) (splitNumber (c :: rest)).2
    else
      match ofChar? c with
      | some token => scanFrom (token :: before) (position + 1) rest
      | none => .error ⟨c, position⟩
termination_by text.length
decreasing_by
  · simp
  · exact length_splitNumber_lt _h
  · simp

/-- Cuts a text into tokens. -/
def scan (source : String) : Except ScanError (List Token) := scanFrom [] 0 source.toList

end Token

end Reckon
