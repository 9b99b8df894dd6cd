import Reckon.Proofs.Messages
import Reckon.Trace

/-!
# The lines of a trace

Every event is told on a single line (`Event.singleLine_line`): a text or a character that it shows
is quoted, and quoting leaves no line feed in it, and the rest are numbers, symbols and words.  The
line begins with how closely it follows the calculation, so it is not mistaken for an error
(`Event.not_startsLikeError_line`).
-/

namespace Reckon

/-! ## Quoted text -/

namespace Text

theorem newline_not_mem_escape (quote c : Char) : '\n' ∉ escape quote c := by
  unfold escape escapeCode
  split_ifs with hnull htab hreturn hfeed hquoted hhidden
  · decide
  · decide
  · decide
  · decide
  · simp [Ne.symm hfeed]
  · simp [newline_not_mem_toDigits]
  · simp [Ne.symm hfeed]

@[simp] theorem singleLine_quoteString (s : String) : SingleLine (quoteString s) := by
  unfold SingleLine quoteString
  simp [newline_not_mem_escape]

@[simp] theorem singleLine_quoteChar (c : Char) : SingleLine (quoteChar c) := by
  unfold SingleLine quoteChar
  simp [newline_not_mem_escape]

end Text

/-! ## Values and causes -/

@[simp] theorem singleLine_int (i : ℤ) : SingleLine i.repr := by
  cases i with
  | ofNat n => exact singleLine_repr n
  | negSucc n => exact singleLine_append.2 ⟨by decide, singleLine_repr (n + 1)⟩

@[simp] theorem Decimal.singleLine_parts (d : Decimal) : SingleLine d.parts := by
  simp +decide [parts, showRecord]

@[simp] theorem ArithmeticFault.singleLine_parts (e : ArithmeticFault) : SingleLine e.parts := by
  cases e <;> decide

@[simp] theorem EvalError.singleLine_parts (e : EvalError) : SingleLine e.parts := by
  unfold parts
  cases e <;> simp +decide [showRecord]

theorem singleLine_showOutcome {ε : Type} {cause : ε → String} (hcause : ∀ e, SingleLine (cause e))
    (outcome : Except ε Decimal) : SingleLine (showOutcome cause outcome) := by
  cases outcome <;> simp +decide [showOutcome, hcause]

/-! ## Events -/

variable [Register]

@[simp] theorem Application.singleLine_text (application : Application) :
    SingleLine application.text := by
  unfold text
  cases application <;>
    simp +decide [singleLine_showOutcome]

/-- An expression is written on one line, its numbers without an exponent. -/
theorem Expr.newline_not_mem_chars (e : Expr) : '\n' ∉ e.chars := by
  have hsymbol : ∀ op : Operator, '\n' ≠ op.symbol := by
    intro op
    cases op <;> decide
  have henclose : ∀ (operand : Expr) (text : List Char), '\n' ∉ text →
      '\n' ∉ operand.enclose text := by
    intro operand text htext
    unfold enclose
    split <;> simp [htext]
  induction e with
  | number value =>
      exact Decimal.newline_not_mem_of_isNumberChar fun _ =>
        Decimal.isNumberChar_of_mem_plainChars
  | unary op operand ih =>
      unfold chars
      split <;> simp [hsymbol, henclose, ih]
  | binary op left right ihl ihr =>
      unfold chars
      simp [hsymbol, henclose, ihl, ihr]

theorem Event.singleLine_line (event : Event) : SingleLine event.line := by
  unfold line
  cases event with
  | parsed e =>
      have hrender : SingleLine e.render := by
        unfold SingleLine Expr.render
        rw [String.toList_ofList]
        exact e.newline_not_mem_chars
      simp +decide [hrender]
  | tokens | unrecognized | taken | applied => simp +decide

/-! ## Lines of errors -/

/-- Whether the line begins like that of an error. -/
def StartsLikeError (line : List Char) : Prop := "error:".toList <+: line

instance (line : List Char) : Decidable (StartsLikeError line) :=
  inferInstanceAs (Decidable (_ <+: line))

theorem Event.not_startsLikeError_line (event : Event) : ¬StartsLikeError event.line.toList := by
  intro h
  have hhead : event.line.toList.head? = some 'e' := by
    obtain ⟨rest, hrest⟩ := h
    rw [← hrest]
    rfl
  unfold line at hhead
  cases event <;> simp +decide at hhead

end Reckon
