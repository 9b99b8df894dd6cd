import Reckon.Decimal.Literal
import Reckon.Decimal.Text
import Reckon.Proofs.Decimal.Value

/-!
# Numerals

A numeral is a run of digits, or two runs with a point between them.  Numerals are what the
literals without a sign are (`readUnsigned?_eq_some_iff`), and the plain text of a number that is
not negative is one (`numeral_plainChars`).  A text is read as one decimal, and where the exponent
of a decimal is not positive its plain text is read as the decimal itself; otherwise the zeros that
were written for the exponent have become part of the coefficient (`plain`).
-/

namespace Reckon

namespace Decimal

variable {d : Decimal} {text integral fraction rest : List Char}

/-- The text is a numeral, and the number is what its digits say. -/
inductive Numeral : List Char → Decimal → Prop where
  | whole {integral : List Char} (hne : integral ≠ []) (hdigits : ∀ c ∈ integral, c.isDigit) :
      Numeral integral (ofDigits integral [])
  | point {integral fraction : List Char} (hne : integral ≠ [])
      (hdigits : ∀ c ∈ integral, c.isDigit) (hne' : fraction ≠ [])
      (hdigits' : ∀ c ∈ fraction, c.isDigit) :
      Numeral (integral ++ '.' :: fraction) (ofDigits integral fraction)

/-! ## Reading numerals -/

/-- A run of characters of a class is taken off as a whole, when what is behind it does not go on
with one. -/
theorem takeWhile_append_of_end {p : Char → Bool} (rest : List Char) (h : ∀ c ∈ text, p c)
    (hrest : ∀ c ∈ rest.head?, p c = false) :
    (text ++ rest).takeWhile p = text ∧ (text ++ rest).dropWhile p = rest := by
  rw [List.takeWhile_append_of_pos h, List.dropWhile_append_of_pos h]
  cases rest with
  | nil => simp
  | cons c rest =>
      have hc : p c = false := hrest c rfl
      simp [hc]

theorem readUnsigned?_eq_some_iff : readUnsigned? text = some d ↔ Numeral text d := by
  constructor
  · intro h
    have hsplit := List.takeWhile_append_dropWhile (p := Char.isDigit) (l := text)
    have hdigits : ∀ c ∈ text.takeWhile Char.isDigit, c.isDigit :=
      List.all_eq_true.1 List.all_takeWhile
    unfold readUnsigned? at h
    dsimp only at h
    generalize text.takeWhile Char.isDigit = integral at h hsplit hdigits
    split at h
    · next hnil =>
      rw [hnil, List.append_nil] at hsplit
      obtain ⟨hne, h⟩ := Option.ite_none_left_eq_some.1 h
      cases h
      subst hsplit
      exact .whole (by simpa using hne) hdigits
    · next fraction hpoint =>
      rw [hpoint] at hsplit
      obtain ⟨hne, h⟩ := Option.ite_none_left_eq_some.1 h
      cases h
      subst hsplit
      simp only [Bool.or_eq_true, List.isEmpty_iff, Bool.not_eq_true', List.all_eq_false,
        not_or, not_exists, not_and, not_not] at hne
      exact .point hne.1.1 hdigits hne.1.2 hne.2
    · cases h
  · intro h
    cases h with
    | whole hne hdigits =>
        obtain ⟨htake, hdrop⟩ := takeWhile_append_of_end [] hdigits (by simp)
        rw [List.append_nil] at htake hdrop
        simp [readUnsigned?, htake, hdrop, hne]
    | @point integral fraction hne hdigits hne' hdigits' =>
        obtain ⟨htake, hdrop⟩ := takeWhile_append_of_end ('.' :: fraction) hdigits (by simp)
        simp [readUnsigned?, htake, hdrop, hne, hne']
        simpa using hdigits'

theorem exists_head_of_numeral (h : Numeral text d) :
    ∃ c rest, text = c :: rest ∧ c.isDigit := by
  cases h with
  | whole hne hdigits =>
      obtain ⟨c, rest, rfl⟩ := List.exists_cons_of_ne_nil hne
      exact ⟨c, rest, rfl, hdigits c List.mem_cons_self⟩
  | point hne hdigits =>
      obtain ⟨c, rest, rfl⟩ := List.exists_cons_of_ne_nil hne
      exact ⟨c, _, List.cons_append, hdigits c List.mem_cons_self⟩

/-- A numeral is a literal, since no sign stands in front of it. -/
theorem readChars?_of_numeral (h : Numeral text d) : readChars? text = some d := by
  obtain ⟨c, rest, heq, hc⟩ := exists_head_of_numeral h
  rw [← readUnsigned?_eq_some_iff.2 h]
  unfold readChars?
  rw [heq]
  split
  · next hsign =>
    cases hsign
    exact absurd hc (by decide)
  · next hsign =>
    cases hsign
    exact absurd hc (by decide)
  · rfl

theorem read_of_numeral {literal : String} (h : Numeral literal.toList d) :
    read literal = .ok d := by
  unfold read
  rw [readChars?_of_numeral h]

/-- What a numeral says is not negative and has no positive exponent. -/
theorem Numeral.nonneg (h : Numeral text d) : 0 ≤ d.coefficient ∧ d.exponent ≤ 0 := by
  cases h <;> simp [ofDigits]

theorem digit_le_nine {c : Char} (h : c.isDigit) : c.toNat - '0'.toNat ≤ 9 := by
  simp only [Char.isDigit, Bool.and_eq_true, decide_eq_true_eq, UInt32.le_iff_toNat_le] at h
  obtain ⟨-, hle⟩ := h
  change c.toNat - 48 ≤ 9
  change c.toNat ≤ 57 at hle
  omega

theorem ofDigitChars_lt_pow (h : ∀ c ∈ text, c.isDigit) :
    Nat.ofDigitChars 10 text 0 < 10 ^ text.length := by
  induction text with
  | nil => exact Nat.one_pos
  | cons c text ih =>
      have htext := ih fun c' hc' => h c' (List.mem_cons_of_mem _ hc')
      have hc : 10 * 0 + (c.toNat - '0'.toNat) ≤ 9 := by
        have := digit_le_nine (h c List.mem_cons_self)
        omega
      rw [Nat.ofDigitChars_cons, Nat.ofDigitChars_eq_ofDigitChars_zero, List.length_cons, pow_succ]
      calc 10 ^ text.length * (10 * 0 + (c.toNat - '0'.toNat)) + Nat.ofDigitChars 10 text 0
          < 10 ^ text.length * 9 + 10 ^ text.length :=
            Nat.add_lt_add_of_le_of_lt (Nat.mul_le_mul_left _ hc) htext
        _ = 10 ^ text.length * 10 := by ring

private theorem digits_ofDigits_le (integral fraction : List Char)
    (hne : integral ++ fraction ≠ [])
    (h : ∀ c ∈ integral ++ fraction, c.isDigit) :
    (ofDigits integral fraction).digits ≤ integral.length + fraction.length := by
  rw [← List.length_append, digits_le_iff (List.length_pos_iff.2 hne)]
  simp only [ofDigits, Nat.abs_cast]
  exact_mod_cast ofDigitChars_lt_pow h

/-- A numeral has no more digits, altogether or behind the point, than it is long. -/
theorem Numeral.length_le (h : Numeral text d) :
    d.digits ≤ text.length ∧ -d.exponent < text.length := by
  cases h with
  | whole hne hdigits =>
      have hle := digits_ofDigits_le _ [] (by simpa using hne) (by simpa using hdigits)
      exact ⟨by simpa using hle, by simpa [ofDigits, List.length_pos_iff] using hne⟩
  | @point integral fraction hne hdigits hne' hdigits' =>
      have hall : ∀ c ∈ integral ++ fraction, c.isDigit := by
        intro c hc
        rcases List.mem_append.1 hc with hc | hc
        · exact hdigits c hc
        · exact hdigits' c hc
      have hle := digits_ofDigits_le integral fraction (by simp [hne]) hall
      rw [List.length_append, List.length_cons]
      refine ⟨by omega, ?_⟩
      simp only [ofDigits]
      omega

/-! ## Writing numerals -/

/-- The same number without a positive exponent. -/
def plain (d : Decimal) : Decimal :=
  if d.exponent ≤ 0 then d else ⟨d.coefficient * 10 ^ d.exponent.toNat, 0⟩

theorem plain_of_nonpos (h : d.exponent ≤ 0) : d.plain = d := if_pos h

@[simp] theorem value_plain (d : Decimal) : d.plain.value = d.value := by
  unfold plain
  split
  · rfl
  · next hexponent =>
    have hpow : (10 : ℚ) ^ d.exponent = 10 ^ d.exponent.toNat := by
      rw [← zpow_natCast, Int.toNat_of_nonneg (by omega)]
    simp [value, hpow]

theorem length_digitChars (d : Decimal) : d.digitChars.length = d.digits := by
  unfold digitChars digits
  apply eq_of_forall_ge_iff
  intro k
  rcases Nat.eq_zero_or_pos k with rfl | hk
  · have := digitCount_pos d.coefficient.natAbs
    have := Nat.length_toDigits_pos (b := 10) (n := d.coefficient.natAbs)
    omega
  · -- both are counted by the powers of ten above the coefficient
    rw [Nat.length_toDigits_le_iff (by norm_num) hk, digitCount_le_iff hk]

theorem isDigit_of_mem_digitChars {c : Char} (h : c ∈ d.digitChars) : c.isDigit :=
  Nat.isDigit_of_mem_toDigits (by norm_num) le_rfl h

theorem digitChars_ne_nil (d : Decimal) : d.digitChars ≠ [] := Nat.toDigits_ne_nil

theorem ofDigitChars_digitChars (hd : 0 ≤ d.coefficient) :
    (Nat.ofDigitChars 10 d.digitChars 0 : ℤ) = d.coefficient := by
  unfold digitChars
  rw [Nat.ofDigitChars_ten_toDigits]
  exact Int.natAbs_of_nonneg hd

/-- Whether the place of the point fits the register. -/
def Writable (d : Decimal) : Prop :=
  -2 ^ 63 < d.exponent + d.digits ∧ d.exponent + d.digits < 2 ^ 63

theorem Moderate.writable (h : d.Moderate) : d.Writable := by
  obtain ⟨hdigits, hlow, hhigh⟩ := h
  unfold Writable
  omega

theorem writable_of_inRange (hexponent : Register.InRange d.exponent)
    (hpoint : d.exponent + d.digits ≤ Register.greatest) : d.Writable := by
  have hpos := d.digits_pos
  obtain ⟨hleast, -⟩ := hexponent
  unfold Register.least at hleast
  unfold Register.greatest at hpoint
  unfold Writable
  omega

theorem Writable.abs (h : d.Writable) : d.abs.Writable := h

/-- What a text says is writable, unless the text is longer than the register can count. -/
theorem Numeral.writable (h : Numeral text d) (hlength : text.length < 2 ^ 63) : d.Writable := by
  have hpos := d.digits_pos
  obtain ⟨hdigits, hexponent⟩ := h.length_le
  have hnonpos := h.nonneg.2
  unfold Writable
  omega

theorem pointPosition_eq (h : d.Writable) : d.pointPosition = d.exponent + d.digits := by
  obtain ⟨hlow, hhigh⟩ := h
  unfold pointPosition
  rw [length_digitChars]
  exact Register.saturate_eq (by omega) (by omega)

private theorem eq_ofDigits
    (hcoefficient : (Nat.ofDigitChars 10 (integral ++ fraction) 0 : ℤ) = d.coefficient)
    (hexponent : -(fraction.length : ℤ) = d.exponent) : d = ofDigits integral fraction := by
  unfold ofDigits
  rw [hcoefficient, hexponent]

private theorem isDigit_of_mem_zeros {n : ℕ} {c : Char} (h : c ∈ List.replicate n '0') :
    c.isDigit := by
  rw [List.eq_of_mem_replicate h]
  rfl

/-- Zeros fill the places between the point and the digits. -/
private theorem numeral_of_point_nonpos (hd : 0 ≤ d.coefficient)
    (hpoint : d.exponent + d.digits ≤ 0) :
    Numeral ('0' :: '.' ::
      (List.replicate (-(d.exponent + d.digits)).toNat '0' ++ d.digitChars)) d.plain := by
  have hlength := d.length_digitChars
  have hpos := d.digits_pos
  generalize hzeros : (-(d.exponent + d.digits)).toNat = zeros
  have hread : d.plain = ofDigits ['0'] (List.replicate zeros '0' ++ d.digitChars) := by
    rw [plain_of_nonpos (by omega)]
    refine eq_ofDigits ?_ ?_
    · rw [Nat.ofDigitChars_append, Nat.ofDigitChars_append, Nat.ofDigitChars_replicate_zero,
        show Nat.ofDigitChars 10 ['0'] 0 = 0 from rfl, Nat.mul_zero, ofDigitChars_digitChars hd]
    · rw [List.length_append, List.length_replicate, hlength]
      omega
  have hfraction : ∀ c ∈ List.replicate zeros '0' ++ d.digitChars, c.isDigit := by
    intro c hc
    rcases List.mem_append.1 hc with hc | hc
    · exact isDigit_of_mem_zeros hc
    · exact isDigit_of_mem_digitChars hc
  rw [hread]
  exact .point (List.cons_ne_nil '0' []) (by simp) (by simp [digitChars_ne_nil]) hfraction

/-- The zeros of a positive exponent are written behind the digits. -/
private theorem numeral_of_exponent_nonneg (hd : 0 ≤ d.coefficient) (hexponent : 0 ≤ d.exponent) :
    Numeral (d.digitChars ++ List.replicate d.exponent.toNat '0') d.plain := by
  have hplain : d.plain = ⟨d.coefficient * 10 ^ d.exponent.toNat, 0⟩ := by
    rcases hexponent.eq_or_lt with heq | hlt
    · rw [plain_of_nonpos heq.ge, ← heq, Int.toNat_zero, pow_zero, mul_one, heq]
    · exact if_neg (not_le.2 hlt)
  have hread : d.plain = ofDigits (d.digitChars ++ List.replicate d.exponent.toNat '0') [] := by
    rw [hplain]
    refine eq_ofDigits ?_ rfl
    rw [List.append_nil, Nat.ofDigitChars_append, Nat.ofDigitChars_replicate_zero]
    push_cast
    rw [ofDigitChars_digitChars hd, mul_comm]
  rw [hread]
  refine .whole (by simp [digitChars_ne_nil]) ?_
  intro c hc
  rcases List.mem_append.1 hc with hc | hc
  · exact isDigit_of_mem_digitChars hc
  · exact isDigit_of_mem_zeros hc

/-- The point stands among the digits. -/
private theorem numeral_of_point_pos (hd : 0 ≤ d.coefficient) (hexponent : d.exponent < 0)
    (hpoint : 0 < d.exponent + d.digits) :
    Numeral (d.digitChars.take (d.exponent + d.digits).toNat ++
      '.' :: d.digitChars.drop (d.exponent + d.digits).toNat) d.plain := by
  have hlength := d.length_digitChars
  generalize hplace : (d.exponent + d.digits).toNat = place
  have hread : d.plain = ofDigits (d.digitChars.take place) (d.digitChars.drop place) := by
    rw [plain_of_nonpos hexponent.le]
    refine eq_ofDigits ?_ ?_
    · rw [List.take_append_drop, ofDigitChars_digitChars hd]
    · rw [List.length_drop, hlength]
      omega
  have htake : d.digitChars.take place ≠ [] := by
    apply List.ne_nil_of_length_pos
    rw [List.length_take, hlength]
    omega
  have hdrop : d.digitChars.drop place ≠ [] := by
    apply List.ne_nil_of_length_pos
    rw [List.length_drop, hlength]
    omega
  rw [hread]
  exact .point htake (fun c hc => isDigit_of_mem_digitChars (List.mem_of_mem_take hc)) hdrop
    (fun c hc => isDigit_of_mem_digitChars (List.mem_of_mem_drop hc))

/-- The plain text of a number that is not negative is a numeral. -/
theorem numeral_plainChars (hd : 0 ≤ d.coefficient) (h : d.Writable) :
    Numeral d.plainChars d.plain := by
  have hsign : d.signChars = [] := if_neg (by simpa using hd)
  have hpos := d.digits_pos
  unfold plainChars placePoint
  rw [hsign, List.nil_append, pointPosition_eq h, length_digitChars]
  obtain ⟨hlow, hhigh⟩ := h
  split
  · next hpoint =>
    rw [Register.wrap_eq (by omega) (by omega)]
    exact numeral_of_point_nonpos hd hpoint
  · next hpoint =>
    split
    · next hwhole =>
      rw [add_sub_cancel_right, Register.wrap_eq (by omega) (by omega)]
      exact numeral_of_exponent_nonneg hd (by omega)
    · exact numeral_of_point_pos hd (by omega) (by omega)

theorem read_plainText (hd : 0 ≤ d.coefficient) (h : d.Writable) :
    read d.plainText = .ok d.plain := by
  apply read_of_numeral
  unfold plainText
  rw [String.toList_ofList]
  exact numeral_plainChars hd h

theorem plainChars_of_neg (hd : d.coefficient < 0) : d.plainChars = '-' :: d.abs.plainChars := by
  have hsign : d.signChars = ['-'] := if_pos (by simpa using hd)
  have hsign' : d.abs.signChars = [] := if_neg (by simp [abs])
  unfold plainChars
  rw [hsign, hsign']
  rfl

end Decimal

end Reckon
