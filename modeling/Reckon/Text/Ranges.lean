/-!
# Ranges of characters

A class of characters is given by the ranges of its code points, each with its first and its last
one.
-/

namespace Reckon.Text

/-- Whether the code point of the character lies in one of the ranges. -/
def inRanges (ranges : List (Nat × Nat)) (c : Char) : Bool :=
  ranges.any fun (first, last) => decide (first ≤ c.toNat ∧ c.toNat ≤ last)

end Reckon.Text
