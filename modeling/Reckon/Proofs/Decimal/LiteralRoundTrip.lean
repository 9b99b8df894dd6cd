import Reckon.Proofs.Decimal.Written

/-!
# Literals and plain texts

A text is read as a decimal exactly if it is a written number without an exponent
(`read_eq_ok_iff`), and the decimal is then the one that the text says.  Plain texts are such
texts.  The way back needs a number in which nothing is written that could be left out: no plus, no
zero before other digits of the integral part, and no minus before nothing but zeros
(`Written.Canonical`).  What the value of a run of digits does not tell are the zeros at its head
(`eq_zeros_append_toDigits`), and behind the point those are the zeros that a plain text fills the
places with.
-/

namespace Reckon

namespace Decimal

variable {w : Written} {d : Decimal} {text text' : List Char}

/-! ## Reading -/

namespace Written

theorem chars_of_exponent_none (hexponent : w.exponent = none) :
    w.chars = w.signChars ++ (w.integral.chars ++ w.fractionChars) := by
  simp [chars, exponentChars, hexponent]

theorem decimal_of_exponent_none (hexponent : w.exponent = none) :
    w.decimal = ⟨w.coefficient, -w.fractionDigits.length⟩ := by
  simp [decimal, scale, hexponent]

theorem readChars?_chars (hexponent : w.exponent = none) :
    readChars? w.chars = some w.decimal := by
  have hread := readUnsigned?_eq_some_iff.2 w.numeral
  rw [w.chars_of_exponent_none hexponent, w.decimal_of_exponent_none hexponent]
  unfold signChars coefficient
  cases w.sign with
  | none => exact readChars?_of_numeral w.numeral
  | some sign =>
      cases sign with
      | plus => exact hread
      | minus => exact congrArg (Option.map (-·)) hread

theorem exists_of_readChars?_eq_some (h : readChars? text = some d) :
    ∃ w : Written, w.exponent = none ∧ w.chars = text ∧ w.decimal = d := by
  unfold readChars? at h
  split at h
  · next unsigned =>
    obtain ⟨d', hread, hneg⟩ := Option.map_eq_some_iff.1 h
    obtain ⟨w, -, hexponent, hchars, hdecimal⟩ :=
      exists_of_numeral (readUnsigned?_eq_some_iff.1 hread) (some .minus)
    exact ⟨w, hexponent, hchars, hdecimal.trans hneg⟩
  · next unsigned =>
    obtain ⟨w, -, hexponent, hchars, hdecimal⟩ :=
      exists_of_numeral (readUnsigned?_eq_some_iff.1 h) (some .plus)
    exact ⟨w, hexponent, hchars, hdecimal⟩
  · obtain ⟨w, -, hexponent, hchars, hdecimal⟩ :=
      exists_of_numeral (readUnsigned?_eq_some_iff.1 h) none
    exact ⟨w, hexponent, hchars, hdecimal⟩

end Written

theorem read_eq_ok_iff {literal : String} :
    read literal = .ok d ↔
      ∃ w : Written, w.exponent = none ∧ w.text = literal ∧ w.decimal = d := by
  have hread : read literal = .ok d ↔ readChars? literal.toList = some d := by
    unfold read
    cases readChars? literal.toList <;> simp
  rw [hread]
  constructor
  · intro h
    obtain ⟨w, hexponent, hchars, hdecimal⟩ := Written.exists_of_readChars?_eq_some h
    exact ⟨w, hexponent, by rw [Written.text, hchars, String.ofList_toList], hdecimal⟩
  · rintro ⟨w, hexponent, rfl, rfl⟩
    rw [Written.text, String.toList_ofList, w.readChars?_chars hexponent]

theorem read_eq_error {literal : String}
    (h : ∀ w : Written, w.exponent = none → w.text ≠ literal) :
    read literal = .error ⟨literal⟩ := by
  cases hread : read literal with
  | ok d =>
      obtain ⟨w, hexponent, htext, -⟩ := read_eq_ok_iff.1 hread
      exact absurd htext (h w hexponent)
  | error e =>
      unfold read at hread
      split at hread
      · cases hread
      · exact hread.symm

/-- The plain text of a number is read as a number of the same value, written without a positive
exponent. -/
theorem read_plainText_of_writable (h : d.Writable) : read d.plainText = .ok d.plain := by
  obtain ⟨w, -, hexponent, hchars, hdecimal⟩ := exists_written_plainChars h
  exact read_eq_ok_iff.2 ⟨w, hexponent, congrArg String.ofList hchars, hdecimal⟩

/-! ## A run of digits and its value -/

private theorem eq_of_digit_eq {c c' : Char} (hc : c.isDigit) (hc' : c'.isDigit)
    (h : c.toNat - '0'.toNat = c'.toNat - '0'.toNat) : c = c' := by
  simp only [Char.isDigit, Bool.and_eq_true, decide_eq_true_eq, UInt32.le_iff_toNat_le] at hc hc'
  change 48 ≤ c.toNat ∧ _ at hc
  change 48 ≤ c'.toNat ∧ _ at hc'
  change c.toNat - 48 = c'.toNat - 48 at h
  apply Char.toNat_inj.1
  omega

/-- As many digits of the same value are the same digits. -/
theorem eq_of_ofDigitChars_eq (h : ∀ c ∈ text, c.isDigit) (h' : ∀ c ∈ text', c.isDigit)
    (hlength : text.length = text'.length)
    (hvalue : Nat.ofDigitChars 10 text 0 = Nat.ofDigitChars 10 text' 0) : text = text' := by
  induction text generalizing text' with
  | nil => exact (List.length_eq_zero_iff.1 hlength.symm).symm
  | cons c rest ih =>
      obtain ⟨c', rest', rfl⟩ := List.exists_cons_of_length_eq_add_one hlength.symm
      have hrest : ∀ c ∈ rest, c.isDigit := fun c hc => h c (List.mem_cons_of_mem _ hc)
      have hrest' : ∀ c ∈ rest', c.isDigit := fun c hc => h' c (List.mem_cons_of_mem _ hc)
      have hlength' : rest.length = rest'.length := by simpa using hlength
      -- the first digit is the quotient by the power of ten that the others stay below
      rw [Nat.ofDigitChars_cons, Nat.ofDigitChars_cons, Nat.ofDigitChars_eq_ofDigitChars_zero,
        Nat.ofDigitChars_eq_ofDigitChars_zero (l := rest'), ← hlength', Nat.mul_zero, Nat.zero_add,
        Nat.zero_add] at hvalue
      have hlt := ofDigitChars_lt_pow hrest
      have hlt' := hlength' ▸ ofDigitChars_lt_pow hrest'
      have hdigit := congrArg (· / 10 ^ rest.length) hvalue
      have hothers := congrArg (· % 10 ^ rest.length) hvalue
      simp only [Nat.mul_add_div (Nat.pow_pos (by norm_num : 0 < 10)), Nat.div_eq_of_lt hlt,
        Nat.div_eq_of_lt hlt', Nat.add_zero] at hdigit
      simp only [Nat.mul_add_mod, Nat.mod_eq_of_lt hlt, Nat.mod_eq_of_lt hlt'] at hothers
      rw [eq_of_digit_eq (h c List.mem_cons_self) (h' c' List.mem_cons_self) hdigit,
        ih hrest hrest' hlength' hothers]

theorem length_toDigits_le (hne : text ≠ []) (h : ∀ c ∈ text, c.isDigit) :
    (Nat.toDigits 10 (Nat.ofDigitChars 10 text 0)).length ≤ text.length :=
  (Nat.length_toDigits_le_iff (by norm_num) (List.length_pos_iff.2 hne)).2 (ofDigitChars_lt_pow h)

/-- Zeros fill the places that the digits of the value leave. -/
theorem eq_zeros_append_toDigits (hne : text ≠ []) (h : ∀ c ∈ text, c.isDigit) :
    text = List.replicate
        (text.length - (Nat.toDigits 10 (Nat.ofDigitChars 10 text 0)).length) '0' ++
      Nat.toDigits 10 (Nat.ofDigitChars 10 text 0) := by
  apply eq_of_ofDigitChars_eq h
  · intro c hc
    rcases List.mem_append.1 hc with hc | hc
    · rw [List.eq_of_mem_replicate hc]
      rfl
    · exact Nat.isDigit_of_mem_toDigits (by norm_num) le_rfl hc
  · have := length_toDigits_le hne h
    rw [List.length_append, List.length_replicate]
    omega
  · rw [Nat.ofDigitChars_append, Nat.ofDigitChars_replicate_zero, Nat.mul_zero,
      Nat.ofDigitChars_ten_toDigits]

theorem toDigits_of_head?_ne_zero (hne : text ≠ []) (h : ∀ c ∈ text, c.isDigit)
    (hhead : text.head? ≠ some '0') : Nat.toDigits 10 (Nat.ofDigitChars 10 text 0) = text := by
  have hzeros := eq_zeros_append_toDigits hne h
  generalize text.length - _ = zeros at hzeros
  cases zeros with
  | zero => exact hzeros.symm
  | succ zeros =>
      rw [hzeros] at hhead
      simp [List.replicate_succ] at hhead

theorem ofDigitChars_pos (h : ∀ c ∈ text, c.isDigit) (hc : ∃ c ∈ text, c ≠ '0') :
    0 < Nat.ofDigitChars 10 text 0 := by
  obtain ⟨c, hmem, hc⟩ := hc
  apply Nat.pos_of_ne_zero
  intro hzero
  have hzeros := eq_zeros_append_toDigits (List.ne_nil_of_mem hmem) h
  rw [hzero, Nat.toDigits_zero] at hzeros
  rw [hzeros] at hmem
  simp [hc] at hmem

/-! ## Canonically written numbers -/

/-- The number is written without an exponent, a plus, a zero that could be left out of its
integral part, and a minus that says nothing. -/
structure Written.Canonical (w : Written) : Prop where
  exponent : w.exponent = none
  sign : w.sign ≠ some .plus
  integral : w.integral.chars = ['0'] ∨ w.integral.chars.head? ≠ some '0'
  nonzero : w.sign = some .minus → ∃ c ∈ w.digits, c ≠ '0'

namespace Written

theorem isDigit_of_mem_digits {c : Char} (hc : c ∈ w.digits) : c.isDigit := by
  rcases List.mem_append.1 hc with hc | hc
  · exact w.integral.isDigit c hc
  · unfold fractionDigits at hc
    cases hfraction : w.fraction with
    | none => simp [hfraction] at hc
    | some run => exact run.isDigit c (by simpa [hfraction] using hc)

theorem digitChars_decimal (w : Written) :
    w.decimal.digitChars = Nat.toDigits 10 (Nat.ofDigitChars 10 w.digits 0) := by
  unfold digitChars decimal coefficient
  cases w.sign with
  | none => rfl
  | some sign => cases sign <;> simp [Sign.apply]

theorem Canonical.signChars_decimal (h : w.Canonical) : w.decimal.signChars = w.signChars := by
  unfold Decimal.signChars signChars isNegative decimal coefficient
  cases hsign : w.sign with
  | none =>
      have hnonneg : ¬ (Nat.ofDigitChars 10 w.digits 0 : ℤ) < 0 := not_lt.2 (Int.natCast_nonneg _)
      exact if_neg (by rw [decide_eq_true_eq]; exact hnonneg)
  | some sign =>
      cases sign with
      | plus => exact absurd hsign h.sign
      | minus =>
          have hpos := ofDigitChars_pos (fun c hc => w.isDigit_of_mem_digits hc) (h.nonzero hsign)
          simp [Sign.apply, Sign.char, hpos]

/-- The point is put back where it was, with the zeros that the value has lost. -/
theorem placePoint_decimal
    (hintegral : w.integral.chars = ['0'] ∨ w.integral.chars.head? ≠ some '0')
    (hlength : w.digits.length < 2 ^ 63) :
    placePoint w.decimal.digitChars (w.decimal.digitChars.length - w.fractionDigits.length) =
      w.integral.chars ++ w.fractionChars := by
  rw [digitChars_decimal]
  rcases hintegral with hzero | hhead
  · cases hfraction : w.fraction with
    | none =>
        have hdigits : w.digits = ['0'] := by simp [digits, fractionDigits, hzero, hfraction]
        simp only [hdigits, fractionDigits, fractionChars, hzero, hfraction]
        rfl
    | some run =>
        have hdigits : w.digits = '0' :: run.chars := by
          simp [digits, fractionDigits, hzero, hfraction]
        have hvalue : Nat.ofDigitChars 10 w.digits 0 = run.value := by
          rw [hdigits, Nat.ofDigitChars_cons]
          rfl
        have hle := length_toDigits_le run.ne_nil run.isDigit
        have hzeros := eq_zeros_append_toDigits run.ne_nil run.isDigit
        rw [hdigits, List.length_cons] at hlength
        rw [hvalue, hzero, fractionDigits, fractionChars, hfraction, Option.elim_some,
          Option.elim_some, DigitRun.value, placePoint_of_nonpos (by omega) (by omega), neg_sub,
          Int.toNat_sub, ← hzeros]
        rfl
  · have hne : w.digits ≠ [] := List.append_ne_nil_of_left_ne_nil w.integral.ne_nil _
    have hhead' : w.digits.head? ≠ some '0' := by
      rwa [digits, List.head?_append_of_ne_nil _ w.integral.ne_nil]
    rw [toDigits_of_head?_ne_zero hne (fun c hc => w.isDigit_of_mem_digits hc) hhead', digits,
      List.length_append, Nat.cast_add, add_sub_cancel_right]
    cases hfraction : w.fraction with
    | none =>
        simp only [fractionDigits, fractionChars, hfraction, Option.elim_none, List.append_nil]
        exact placePoint_length w.integral.ne_nil
    | some run =>
        simp only [fractionDigits, fractionChars, hfraction, Option.elim_some]
        exact placePoint_append w.integral.ne_nil run.ne_nil

theorem length_digits_le (w : Written) : w.digits.length ≤ w.text.length := by
  have hfraction : w.fractionDigits.length ≤ w.fractionChars.length := by
    unfold fractionDigits fractionChars
    cases w.fraction <;> simp
  rw [text, String.length_ofList, chars, digits]
  simp only [List.length_append]
  omega

theorem Canonical.plainText_decimal (h : w.Canonical) (hlength : w.text.length < 2 ^ 63) :
    w.decimal.plainText = w.text := by
  have hle := w.length_digits_le
  have hne : w.digits ≠ [] := List.append_ne_nil_of_left_ne_nil w.integral.ne_nil _
  have hcount : w.decimal.digitChars.length ≤ w.digits.length := by
    rw [digitChars_decimal]
    exact length_toDigits_le hne fun c hc => w.isDigit_of_mem_digits hc
  have hfraction : w.fractionDigits.length ≤ w.digits.length := by
    rw [digits, List.length_append]
    omega
  have hpoint : w.decimal.pointPosition =
      w.decimal.digitChars.length - w.fractionDigits.length := by
    have hexponent : w.decimal.exponent = -w.fractionDigits.length := by
      rw [w.decimal_of_exponent_none h.exponent]
    unfold pointPosition
    rw [hexponent, Register.saturate_eq (by omega) (by omega)]
    omega
  unfold plainText plainChars text
  rw [h.signChars_decimal, hpoint, placePoint_decimal h.integral (by omega),
    chars_of_exponent_none h.exponent]

end Written

/-! ## Both ways -/

/-- The texts that are read as decimals are the numbers written without an exponent; each is read as
the decimal that it says, and every other text is handed back in the error.  Plain texts are read
as the number that they were made from, up to the zeros of a positive exponent, and a number that
is written canonically is the plain text of what it is read as.  The bounds are those under which
the register holds the place of the point. -/
theorem literals_and_plain_texts_correspond :
    (∀ (literal : String) (d : Decimal), read literal = .ok d ↔
      ∃ w : Written, w.exponent = none ∧ w.text = literal ∧ w.decimal = d) ∧
    (∀ literal : String, (∀ w : Written, w.exponent = none → w.text ≠ literal) →
      read literal = .error ⟨literal⟩) ∧
    (∀ d : Decimal, Register.InRange d.exponent → d.exponent + d.digits ≤ Register.greatest →
      ∃ d', read d.plainText = .ok d' ∧ d'.value = d.value ∧ (d.exponent ≤ 0 → d' = d)) ∧
    (∀ w : Written, w.Canonical → w.text.length < 2 ^ 63 →
      (read w.text).map plainText = .ok w.text) := by
  refine ⟨fun _ _ => read_eq_ok_iff, fun _ => read_eq_error, ?_, ?_⟩
  · intro d hexponent hpoint
    have hread := read_plainText_of_writable (writable_of_inRange hexponent hpoint)
    exact ⟨d.plain, hread, d.value_plain, plain_of_nonpos⟩
  · intro w h hlength
    rw [read_eq_ok_iff.2 ⟨w, h.exponent, rfl, rfl⟩, Except.map, h.plainText_decimal hlength]

/-- The number that is written `-0.05`. -/
def minusFiveHundredths : Written where
  sign := some .minus
  integral := ⟨['0'], by simp, by simp⟩
  fraction := some ⟨['0', '5'], by simp, by simp⟩
  exponent := none

private theorem canonical_minusFiveHundredths : minusFiveHundredths.Canonical :=
  ⟨rfl, by decide, .inl rfl, fun _ => ⟨'5', by decide, by decide⟩⟩

theorem minus_five_hundredths_read_and_written :
    read "-0.05" = .ok ⟨-5, -2⟩ ∧ read "1." = .error ⟨"1."⟩ ∧
      (∃ d', read (plainText ⟨-12, 3⟩) = .ok d' ∧ d'.value = value ⟨-12, 3⟩ ∧
        ((3 : ℤ) ≤ 0 → d' = ⟨-12, 3⟩)) ∧
      minusFiveHundredths.Canonical ∧ minusFiveHundredths.text.length < 2 ^ 63 ∧
      (read "-0.05").map plainText = .ok "-0.05" := by
  obtain ⟨hread, herror, hplain, hwritten⟩ := literals_and_plain_texts_correspond
  have htext : minusFiveHundredths.text = "-0.05" := by decide
  have hlength : minusFiveHundredths.text.length < 2 ^ 63 := by
    rw [htext]
    decide
  refine ⟨(hread _ _).2 ⟨minusFiveHundredths, rfl, htext, by decide⟩, herror "1." ?_,
    hplain ⟨-12, 3⟩ (by decide) (by decide), canonical_minusFiveHundredths, hlength, ?_⟩
  · intro w hexponent hw
    have hok := (hread "1." w.decimal).2 ⟨w, hexponent, hw, rfl⟩
    have hrejected : read "1." = .error ⟨"1."⟩ := by decide
    rw [hrejected] at hok
    cases hok
  · rw [← htext]
    exact hwritten minusFiveHundredths canonical_minusFiveHundredths hlength

end Decimal

end Reckon
