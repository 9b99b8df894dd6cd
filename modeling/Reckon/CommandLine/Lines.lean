/-!
# Lines of bytes

The input is cut into lines at line feeds.  A carriage return directly in front of a line feed
belongs to the line's end, and what follows the last line feed is a line only if there is
something.  Whether the bytes of a line are text is found out line by line.
-/

namespace Reckon.CommandLine

/-- A line's bytes from the reversed ones in front of its line feed. -/
def lineOfReversed : List UInt8 → List UInt8
  | 13 :: reversed => reversed.reverse
  | reversed => reversed.reverse

/-- The lines of the bytes, the first of which begins with the given bytes, the last one first. -/
def splitLinesFrom (reversed : List UInt8) : List UInt8 → List (List UInt8)
  | [] => if reversed.isEmpty then [] else [reversed.reverse]
  | 10 :: bytes => lineOfReversed reversed :: splitLinesFrom [] bytes
  | byte :: bytes => splitLinesFrom (byte :: reversed) bytes

/-- The lines of the bytes. -/
def splitLines (bytes : List UInt8) : List (List UInt8) := splitLinesFrom [] bytes

/-- A line that a line feed ends comes before the lines behind it. -/
theorem splitLinesFrom_append (line rest : List UInt8) (h : 10 ∉ line) :
    ∀ reversed, splitLinesFrom reversed (line ++ 10 :: rest) =
      lineOfReversed (line.reverse ++ reversed) :: splitLines rest := by
  induction line with
  | nil => intro reversed; rfl
  | cons byte line ih =>
    intro reversed
    obtain ⟨hbyte, hline⟩ := not_or.1 (mt List.mem_cons.2 h)
    rw [List.cons_append, splitLinesFrom.eq_3 _ _ _ (Ne.symm hbyte), ih hline]
    simp

/-- The text of a line, if its bytes are one. -/
def decodeLine? (line : List UInt8) : Option String := String.fromUTF8? ⟨line.toArray⟩

end Reckon.CommandLine
