import Reckon.Proofs.Expr.Reading

/-!
# Answers of one line

What a text is answered with is a single line: the value of its expression
(`Decimal.singleLine_text`), the reason why it cannot be read (`singleLine_message_of_parse`), or
the reason why its expression has no value (`EvalError.singleLine_message`).

Numbers and symbols of operators are written without line feeds.  So one could come in only with a
character or a token that an error names, and none does: the scanner skips line feeds, which leaves
them out of its own report and out of all tokens.
-/

namespace Reckon

variable {s t : String} {limits : Limits} {source : String}

/-- The text has no line feed. -/
def SingleLine (s : String) : Prop := '\n' ∉ s.toList

instance (s : String) : Decidable (SingleLine s) :=
  inferInstanceAs (Decidable ('\n' ∉ s.toList))

@[simp] theorem singleLine_append : SingleLine (s ++ t) ↔ SingleLine s ∧ SingleLine t := by
  unfold SingleLine
  rw [String.toList_append, List.mem_append, not_or]

@[simp] theorem singleLine_toString : SingleLine (toString s) ↔ SingleLine s := Iff.rfl

theorem singleLine_char {c : Char} (hc : c ≠ '\n') : SingleLine (toString c) := by
  show '\n' ∉ (String.singleton c).toList
  rw [String.toList_singleton, List.mem_singleton]
  exact hc.symm

theorem newline_not_mem_toDigits {b : ℕ} (hb : 1 < b) (n : ℕ) : '\n' ∉ Nat.toDigits b n := by
  have hdigit : ∀ d, '\n' ≠ Nat.digitChar d := fun d => (Nat.digitChar_ne '\n' (by decide)).symm
  induction n using Nat.strong_induction_on with
  | _ n ih =>
      rcases Nat.lt_or_ge n b with hlt | hge
      · rw [Nat.toDigits_of_lt_base hlt, List.mem_singleton]
        exact hdigit n
      · rw [Nat.toDigits_of_base_le hb hge, List.mem_append, List.mem_singleton, not_or]
        exact ⟨ih _ (Nat.div_lt_self (by omega) hb), hdigit _⟩

@[simp] theorem singleLine_repr (n : ℕ) : SingleLine n.repr := by
  unfold SingleLine Nat.repr
  rw [String.toList_ofList]
  exact newline_not_mem_toDigits (by decide) n

/-! ## Numbers and symbols -/

namespace Decimal

/-- The characters that numbers are written with. -/
def IsNumberChar (c : Char) : Prop := c.isDigit ∨ c ∈ ['-', '.', 'E', '+']

instance (c : Char) : Decidable (IsNumberChar c) := inferInstanceAs (Decidable (_ ∨ _))

variable {d : Decimal} {c : Char} {text : List Char}

theorem newline_not_mem_of_isNumberChar (h : ∀ c ∈ text, IsNumberChar c) : '\n' ∉ text := by
  intro hmem
  exact absurd (h _ hmem) (by decide)

theorem isNumberChar_of_mem_toDigits {n : ℕ} (h : c ∈ Nat.toDigits 10 n) : IsNumberChar c :=
  Or.inl (Nat.isDigit_of_mem_toDigits (by decide) le_rfl h)

theorem isNumberChar_of_mem_signChars (h : c ∈ d.signChars) : IsNumberChar c := by
  unfold signChars at h
  split at h
  · rw [List.mem_singleton.1 h]
    decide
  · cases h

theorem isNumberChar_of_mem_exponentChars {exponent : ℤ} (h : c ∈ exponentChars exponent) :
    IsNumberChar c := by
  unfold exponentChars at h
  split at h
  · cases h
  · simp only [List.mem_cons] at h
    rcases h with rfl | rfl | h
    · decide
    · split <;> decide
    · exact isNumberChar_of_mem_toDigits h

section Register

variable [Register]

theorem isNumberChar_of_mem_placePoint {digits : List Char} {point : ℤ}
    (hdigits : ∀ c ∈ digits, IsNumberChar c) (h : c ∈ placePoint digits point) :
    IsNumberChar c := by
  have hzero : IsNumberChar '0' := by decide
  have hpoint : IsNumberChar '.' := by decide
  unfold placePoint at h
  split at h
  · simp only [List.mem_cons, List.mem_append, List.mem_replicate] at h
    rcases h with rfl | rfl | ⟨-, rfl⟩ | h
    · exact hzero
    · exact hpoint
    · exact hzero
    · exact hdigits c h
  · split at h
    · rcases List.mem_append.1 h with h | h
      · exact hdigits c h
      · rw [List.eq_of_mem_replicate h]
        exact hzero
    · simp only [List.mem_append, List.mem_cons] at h
      rcases h with h | rfl | h
      · exact hdigits c (List.mem_of_mem_take h)
      · exact hpoint
      · exact hdigits c (List.mem_of_mem_drop h)

theorem isNumberChar_of_mem_plainChars (h : c ∈ d.plainChars) : IsNumberChar c :=
  (List.mem_append.1 h).elim isNumberChar_of_mem_signChars
    (isNumberChar_of_mem_placePoint fun _ => isNumberChar_of_mem_toDigits)

theorem isNumberChar_of_mem_chars (h : c ∈ d.chars) : IsNumberChar c := by
  rcases List.mem_append.1 h with h | h
  · exact (List.mem_append.1 h).elim isNumberChar_of_mem_signChars
      (isNumberChar_of_mem_placePoint fun _ => isNumberChar_of_mem_toDigits)
  · exact isNumberChar_of_mem_exponentChars h

@[simp] theorem singleLine_text (d : Decimal) : SingleLine d.text := by
  unfold SingleLine text
  rw [String.toList_ofList]
  exact newline_not_mem_of_isNumberChar fun _ => isNumberChar_of_mem_chars

end Register

theorem Numeral.isNumberChar_of_mem (h : Numeral text d) (hc : c ∈ text) : IsNumberChar c := by
  cases h with
  | whole hne hdigits => exact Or.inl (hdigits c hc)
  | point hne hdigits hne' hdigits' =>
      rcases List.mem_append.1 hc with hc | hc
      · exact Or.inl (hdigits c hc)
      · rcases List.mem_cons.1 hc with rfl | hc
        · decide
        · exact Or.inl (hdigits' c hc)

end Decimal

@[simp] theorem Operator.singleLine_symbol (op : Operator) : SingleLine (toString op.symbol) := by
  apply singleLine_char
  cases op <;> decide

theorem Token.Readable.singleLine_text {token : Token} (h : token.Readable) :
    SingleLine token.text := by
  cases token with
  | number text =>
      obtain ⟨d, hd⟩ := h
      exact Decimal.newline_not_mem_of_isNumberChar fun _ => hd.isNumberChar_of_mem
  | symbol c =>
      obtain ⟨op, rfl⟩ := Token.exists_symbol_eq h
      exact op.singleLine_symbol
  | leftParen => decide
  | rightParen => decide

/-! ## Errors -/

theorem ScanError.singleLine_message {e : ScanError} (he : ¬Token.isBlank e.character) :
    SingleLine e.message := by
  have hcharacter : SingleLine (toString e.character) := by
    apply singleLine_char
    intro hfeed
    exact he (by rw [hfeed]; decide)
  unfold message
  simp +decide [hcharacter]

theorem ParseError.singleLine_message {e : ParseError} (he : ¬e.IsUnreadable) :
    SingleLine e.message := by
  unfold message
  cases e with
  | invalidNumber => exact absurd trivial he
  | unexpectedToken token position | trailingToken token position =>
      have htoken : SingleLine token.text := (not_not.1 he).singleLine_text
      simp +decide [htoken]
  | emptyInput | unexpectedEnd | unclosedParenthesis | nestingTooDeep => simp +decide

theorem EvalError.singleLine_message [Register] (e : EvalError) : SingleLine e.message := by
  unfold message
  cases e <;> simp +decide

/-- A text that cannot be read is reported on one line, whatever there is in it. -/
theorem singleLine_message_of_parse [Register] {e : CalcError}
    (h : parse limits source = .error e) : SingleLine e.message := by
  have hreadable := avoids_parse limits source e h
  cases e with
  | scan e => exact ScanError.singleLine_message hreadable
  | parse e => exact ParseError.singleLine_message hreadable
  | eval e => exact e.singleLine_message

end Reckon
