import Reckon.Text.Ranges

/-!
# Blanks at the ends of a text

The blanks that are cut off the ends of a line are those of the whole character set, many more
than those that separate tokens.
-/

namespace Reckon.Text

/-- The code points of the blanks, as ranges with their first and last one. -/
def blankRanges : List (Nat × Nat) :=
  [(0x9, 0xd), (0x20, 0x20), (0x85, 0x85), (0xa0, 0xa0), (0x1680, 0x1680), (0x2000, 0x200a),
    (0x2028, 0x2029), (0x202f, 0x202f), (0x205f, 0x205f), (0x3000, 0x3000)]

/-- Whether the character is a blank. -/
def isBlank (c : Char) : Bool := inRanges blankRanges c

/-- The text without the blanks at its front. -/
def trimFront (text : List Char) : List Char := text.dropWhile isBlank

/-- The text without the blanks at both of its ends. -/
def trim (text : List Char) : List Char := (trimFront (trimFront text).reverse).reverse

/-- What is left of a text that is trimmed begins with no blank. -/
theorem head_trimFront {text : List Char} {c : Char} (h : (trimFront text).head? = some c) :
    isBlank c = false := by
  have hhead := List.head?_dropWhile_not isBlank text
  rw [trimFront] at h
  rw [h] at hhead
  exact hhead

end Reckon.Text
