import Mathlib.Data.List.Basic
import Reckon.CommandLine.Lines

/-!
# Lines of bytes

`Lines` says how bytes are cut into lines without saying how the cuts are found: every line but
the last is ended by a line feed, which takes a carriage return directly in front of it along, and
what follows the last line feed is a line unless it is empty.  `splitLines` finds such a cut
(`lines_splitLines`), and there is no other (`Lines.splitLines_eq`).
-/

namespace Reckon.CommandLine

variable {bytes line rest : List UInt8} {lines : List (List UInt8)}

/-- The line in front of a line feed, without the carriage return at its end. -/
def withoutReturn (line : List UInt8) : List UInt8 :=
  if line.getLast? = some 13 then line.dropLast else line

/-- The bytes are cut into the lines. -/
inductive Lines : List (List UInt8) → List UInt8 → Prop where
  /-- Where nothing is left there is no line. -/
  | nil : Lines [] []
  /-- The last line need not be ended. -/
  | last {line : List UInt8} (hne : line ≠ []) (hfeed : 10 ∉ line) : Lines [line] line
  /-- A line feed ends a line. -/
  | ended {line rest : List UInt8} {lines : List (List UInt8)} (hfeed : 10 ∉ line)
      (h : Lines lines rest) : Lines (withoutReturn line :: lines) (line ++ 10 :: rest)

theorem lineOfReversed_reverse (line : List UInt8) :
    lineOfReversed line.reverse = withoutReturn line := by
  rcases List.eq_nil_or_concat line with rfl | ⟨front, byte, rfl⟩
  · rfl
  · rw [List.concat_eq_append, List.reverse_append, withoutReturn, List.getLast?_append]
    by_cases hbyte : byte = 13
    · rw [hbyte]
      simp [lineOfReversed]
    · have hkept : lineOfReversed (byte :: front.reverse) = (byte :: front.reverse).reverse :=
        lineOfReversed.eq_2 _ fun reversed heq => hbyte (List.cons.inj heq).1
      simp [hkept, hbyte]

theorem splitLines_ended (hfeed : 10 ∉ line) :
    splitLines (line ++ 10 :: rest) = withoutReturn line :: splitLines rest := by
  rw [← lineOfReversed_reverse, splitLines, splitLinesFrom_append line rest hfeed,
    List.append_nil]

private theorem splitLinesFrom_last (hfeed : 10 ∉ line) :
    ∀ reversed, line ≠ [] ∨ reversed ≠ [] →
      splitLinesFrom reversed line = [reversed.reverse ++ line] := by
  induction line with
  | nil =>
      intro reversed hne
      have hreversed : reversed ≠ [] := hne.resolve_left fun h => h rfl
      rw [splitLinesFrom, if_neg (by simpa using hreversed), List.append_nil]
  | cons byte line ih =>
      intro reversed _
      obtain ⟨hbyte, hline⟩ := not_or.1 (mt List.mem_cons.2 hfeed)
      rw [splitLinesFrom.eq_3 _ _ _ (Ne.symm hbyte), ih hline _ (Or.inr (List.cons_ne_nil _ _)),
        List.reverse_cons, List.append_assoc, List.singleton_append]

theorem splitLines_last (hne : line ≠ []) (hfeed : 10 ∉ line) : splitLines line = [line] := by
  rw [splitLines, splitLinesFrom_last hfeed [] (Or.inl hne), List.reverse_nil, List.nil_append]

theorem Lines.splitLines_eq (h : Lines lines bytes) : splitLines bytes = lines := by
  induction h with
  | nil => rfl
  | last hne hfeed => exact splitLines_last hne hfeed
  | ended hfeed _ ih => rw [splitLines_ended hfeed, ih]

theorem lines_splitLines (bytes : List UInt8) : Lines (splitLines bytes) bytes := by
  induction hlength : bytes.length using Nat.strongRecOn generalizing bytes with
  | ind length ih =>
      by_cases hfeed : 10 ∈ bytes
      · obtain ⟨line, rest, rfl, hline⟩ := List.eq_append_cons_of_mem hfeed
        rw [splitLines_ended hline]
        apply Lines.ended hline
        apply ih rest.length _ rest rfl
        rw [← hlength, List.length_append, List.length_cons]
        omega
      · rcases eq_or_ne bytes [] with rfl | hne
        · exact Lines.nil
        · rw [splitLines_last hne hfeed]
          exact Lines.last hne hfeed

end Reckon.CommandLine
