import Reckon.Proofs.Decimal.Written

/-!
# Shown texts

The text of a decimal is a written number that says the decimal itself, coefficient and exponent,
and since no other parts spell that text, decimals with the same text are the same.  There are two
ways to write it.  Where the exponent is not positive and the number does not begin too far behind
the point, the text is the plain one, which then loses nothing (`chars_eq_plainChars`).  Otherwise
one digit stands before the point, and the exponent of that digit is written at the end
(`exists_written_scientific`).
-/

namespace Reckon

namespace Decimal

variable {d : Decimal}

/-! ## The parts of a scientific text -/

/-- The sign of a written exponent. -/
def Sign.of (n : ℤ) : Sign := if n < 0 then .minus else .plus

theorem Sign.apply_of (n : ℤ) : (Sign.of n).apply n.natAbs = n := by
  unfold Sign.of
  split
  · rw [Sign.apply]
    omega
  · exact Int.natAbs_of_nonneg (by omega)

/-- The digits of a number. -/
def DigitRun.ofNat (n : ℕ) : DigitRun where
  chars := Nat.toDigits 10 n
  ne_nil := Nat.toDigits_ne_nil
  isDigit _ := Nat.isDigit_of_mem_toDigits (by norm_num) le_rfl

@[simp] theorem DigitRun.value_ofNat (n : ℕ) : (DigitRun.ofNat n).value = n :=
  Nat.ofDigitChars_ten_toDigits

theorem exponentChars_of_ne_zero {n : ℤ} (h : n ≠ 0) :
    exponentChars n = 'E' :: (Sign.of n).char :: (DigitRun.ofNat n.natAbs).chars := by
  unfold exponentChars Sign.of
  rw [if_neg h]
  split <;> rfl

/-- The sign that is written before the digits: a minus, or none. -/
def writtenSign (d : Decimal) : Option Sign := if d.isNegative then some .minus else none

theorem writtenSign_ne_plus (d : Decimal) : d.writtenSign ≠ some .plus := by
  unfold writtenSign
  split <;> simp

theorem signChars_eq (d : Decimal) :
    d.signChars = d.writtenSign.elim [] fun sign => [sign.char] := by
  unfold signChars writtenSign
  split <;> rfl

theorem apply_writtenSign (d : Decimal) :
    d.writtenSign.elim id Sign.apply (Nat.ofDigitChars 10 d.digitChars 0) = d.coefficient := by
  unfold digitChars writtenSign
  rw [Nat.ofDigitChars_ten_toDigits]
  split
  · next hneg =>
    rw [isNegative_iff] at hneg
    simp only [Option.elim_some, Sign.apply]
    omega
  · next hneg =>
    rw [isNegative_iff] at hneg
    simp only [Option.elim_none, id]
    omega

/-- The digits with a point behind the first of them. -/
private theorem exists_leading_digit (d : Decimal) :
    ∃ (integral : DigitRun) (fraction : Option DigitRun), integral.chars.length = 1 ∧
      integral.chars ++ fraction.elim [] DigitRun.chars = d.digitChars ∧
      integral.chars ++ fraction.elim [] (fun run => '.' :: run.chars) =
        placePoint d.digitChars 1 := by
  have hdigits : ∀ c ∈ d.digitChars, c.isDigit := fun c => isDigit_of_mem_digitChars
  obtain ⟨c, rest, hchars⟩ := List.exists_cons_of_ne_nil d.digitChars_ne_nil
  rw [hchars] at hdigits ⊢
  have hc : ∀ c' ∈ [c], c'.isDigit := by simpa using hdigits c List.mem_cons_self
  rcases eq_or_ne rest [] with rfl | hrest
  · exact ⟨⟨[c], by simp, hc⟩, none, rfl, rfl, (placePoint_length (by simp)).symm⟩
  · have hrest' : ∀ c' ∈ rest, c'.isDigit := fun c' h => hdigits c' (List.mem_cons_of_mem c h)
    exact ⟨⟨[c], by simp, hc⟩, some ⟨rest, hrest, hrest'⟩, rfl, rfl,
      (placePoint_append (List.cons_ne_nil c []) hrest).symm⟩

/-! ## The two ways to write a number -/

theorem adjustedExponent_of_writable (h : d.Writable) :
    d.adjustedExponent = d.exponent + d.digits - 1 := by
  obtain ⟨hlow, hhigh⟩ := h
  unfold adjustedExponent
  rw [Register.saturate_eq (by omega) (by omega)]
  omega

theorem chars_eq_plainChars (hexponent : d.exponent ≤ 0) (hpoint : -6 < d.pointPosition) :
    d.chars = d.plainChars := by
  have hshown : d.shownPoint = d.pointPosition := if_pos ⟨hexponent, hpoint⟩
  unfold chars plainChars
  rw [hshown, sub_self]
  exact List.append_nil _

theorem exists_written_scientific (h : d.Writable)
    (hscientific : 0 < d.exponent ∨ d.adjustedExponent < -6) :
    ∃ w : Written, w.chars = d.chars ∧ w.sign ≠ some .plus ∧ w.decimal = d ∧
      w.integral.chars.length = 1 ∧ ∃ part, w.exponent = some part ∧
        part.1.apply part.2.value = d.adjustedExponent := by
  obtain ⟨integral, fraction, hone, hdigits, hplaced⟩ := d.exists_leading_digit
  have hlength := congrArg List.length hdigits
  have hpos := d.digits_pos
  have hadjusted := adjustedExponent_of_writable h
  rw [hadjusted] at hscientific ⊢
  have hpoint := pointPosition_eq h
  have hshown : d.shownPoint = 1 := if_neg (by omega)
  obtain ⟨hlow, hhigh⟩ := h
  rw [List.length_append, hone, length_digitChars] at hlength
  refine ⟨⟨d.writtenSign, integral, fraction,
      some (Sign.of (d.exponent + d.digits - 1), .ofNat (d.exponent + d.digits - 1).natAbs)⟩,
    ?_, d.writtenSign_ne_plus, ?_, hone, _, rfl, ?_⟩
  · unfold Written.chars Written.signChars Written.fractionChars Written.exponentChars chars
    rw [← List.append_assoc integral.chars, hplaced, hshown, hpoint, ← d.signChars_eq,
      Register.wrap_eq (by omega) (by omega), exponentChars_of_ne_zero (by omega),
      List.append_assoc]
    rfl
  · unfold Written.decimal Written.coefficient Written.digits Written.scale Written.fractionDigits
    rw [hdigits, d.apply_writtenSign, Option.elim_some, DigitRun.value_ofNat, Sign.apply_of]
    congr 1
    dsimp only
    omega
  · rw [DigitRun.value_ofNat, Sign.apply_of]

/-- The shown text of a number, taken apart. -/
theorem exists_written_chars (h : d.Writable) :
    ∃ w : Written, w.chars = d.chars ∧ w.sign ≠ some .plus ∧ w.decimal = d ∧
      (w.exponent.isSome ↔ 0 < d.exponent ∨ d.adjustedExponent < -6) ∧
      ∀ part ∈ w.exponent, part.1.apply part.2.value = d.adjustedExponent ∧
        w.integral.chars.length = 1 := by
  by_cases hscientific : 0 < d.exponent ∨ d.adjustedExponent < -6
  · obtain ⟨w, hchars, hsign, hdecimal, hone, part, hpart, hexponent⟩ :=
      exists_written_scientific h hscientific
    refine ⟨w, hchars, hsign, hdecimal, by simp [hpart, hscientific], ?_⟩
    intro part' hpart'
    cases hpart.symm.trans hpart'
    exact ⟨hexponent, hone⟩
  · obtain ⟨w, hsign, hnone, hchars, hdecimal⟩ := exists_written_plainChars h
    rw [adjustedExponent_of_writable h] at hscientific
    have hplain : d.chars = d.plainChars :=
      chars_eq_plainChars (by omega) (by rw [pointPosition_eq h]; omega)
    refine ⟨w, hchars.trans hplain.symm, hsign, ?_, ?_, by simp [hnone]⟩
    · rw [hdecimal, plain_of_nonpos (by omega)]
    · rw [adjustedExponent_of_writable h, hnone]
      simpa only [Option.isSome_none, Bool.false_eq_true, false_iff] using hscientific

/-- The text of a decimal is spelled by the parts of one written number only, and that number is the
decimal, digit for digit.  An exponent is written if the decimal has a positive one or begins more
than six places behind the point; it is then the exponent of the leading digit, which stands alone
before the point.  So two decimals have the same text only if they are the same.  (The bounds are
those under which the place of the point fits the register.) -/
theorem text_tells_decimals_apart (hexponent : Register.InRange d.exponent)
    (hpoint : d.exponent + d.digits ≤ Register.greatest) :
    (∃ w : Written, (∀ w' : Written, w'.text = d.text ↔ w' = w) ∧ w.sign ≠ some .plus ∧
      w.decimal = d ∧ (w.exponent.isSome ↔ 0 < d.exponent ∨ d.adjustedExponent < -6) ∧
      ∀ part ∈ w.exponent, part.1.apply part.2.value = d.adjustedExponent ∧
        w.integral.chars.length = 1) ∧
    ∀ d' : Decimal, Register.InRange d'.exponent →
      d'.exponent + d'.digits ≤ Register.greatest → d'.text = d.text → d' = d := by
  obtain ⟨w, hchars, hsign, hdecimal, hparts⟩ :=
    exists_written_chars (writable_of_inRange hexponent hpoint)
  have htext : w.text = d.text := congrArg String.ofList hchars
  refine ⟨⟨w, ?_, hsign, hdecimal, hparts⟩, ?_⟩
  · intro w'
    rw [← htext]
    exact Written.text_injective.eq_iff
  · intro d' hexponent' hpoint' heq
    obtain ⟨w', hchars', -, hdecimal', -⟩ :=
      exists_written_chars (writable_of_inRange hexponent' hpoint')
    have htext' : w'.text = d'.text := congrArg String.ofList hchars'
    have hw : w' = w := Written.text_injective (by rw [htext', heq, htext])
    rw [← hdecimal', hw, hdecimal]

theorem minus_twelve_thousands_shown :
    Register.InRange (mk (-12345) 3).exponent ∧
      (mk (-12345) 3).exponent + (mk (-12345) 3).digits ≤ Register.greatest ∧
      text ⟨-12345, 3⟩ = "-1.2345E+7" ∧
      (∃ w : Written, w.text = "-1.2345E+7" ∧ w.decimal = ⟨-12345, 3⟩ ∧ w.exponent.isSome ∧
        w.integral.chars.length = 1) ∧
      text ⟨-123450, 2⟩ ≠ text ⟨-12345, 3⟩ := by
  have hexponent : Register.InRange (mk (-12345) 3).exponent := by decide
  have hpoint : (mk (-12345) 3).exponent + (mk (-12345) 3).digits ≤ Register.greatest := by decide
  have htext : text ⟨-12345, 3⟩ = "-1.2345E+7" := by decide
  obtain ⟨⟨w, hunique, -, hdecimal, hsome, hparts⟩, hapart⟩ :=
    text_tells_decimals_apart hexponent hpoint
  have hscientific : w.exponent.isSome := hsome.2 (.inl (by decide))
  obtain ⟨part, hpart⟩ := Option.isSome_iff_exists.1 hscientific
  refine ⟨hexponent, hpoint, htext,
    ⟨w, ((hunique w).2 rfl).trans htext, hdecimal, hscientific, (hparts part hpart).2⟩, ?_⟩
  intro heq
  have hsame := hapart ⟨-123450, 2⟩ (by decide) (by decide) heq
  exact absurd hsame (by decide)

end Decimal

end Reckon
