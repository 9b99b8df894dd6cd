import Reckon.Proofs.Decimal.Numeral

/-!
# The parts of a written number

A written number is a run of digits, with a sign before it where there is one, a point and a second
run behind it where there are decimal places, and `E` with a signed run of digits at the end where
there is an exponent.  A `Written` holds these parts.  It says one decimal (`Written.decimal`), in
which all of the digits make the coefficient, and it is spelled by one text (`Written.text`).  No
other parts spell that text (`Written.eq_of_chars_eq`), because the first character that is no digit
ends a run.

The plain text of a decimal is spelled by parts without an exponent (`exists_written_plainChars`).
-/

namespace Reckon

namespace Decimal

/-- A sign that stands before digits. -/
inductive Sign where
  | plus
  | minus
  deriving DecidableEq

namespace Sign

def char : Sign → Char
  | plus => '+'
  | minus => '-'

/-- The number with the sign before it. -/
def apply : Sign → ℤ → ℤ
  | plus, n => n
  | minus, n => -n

theorem char_injective : Function.Injective char := by
  intro s s' h
  cases s <;> cases s' <;> first | rfl | exact absurd h (by decide)

theorem isDigit_char (s : Sign) : s.char.isDigit = false := by
  cases s <;> rfl

end Sign

/-- Digits in a row, of which there is at least one. -/
@[ext] structure DigitRun where
  chars : List Char
  ne_nil : chars ≠ []
  isDigit : ∀ c ∈ chars, c.isDigit

namespace DigitRun

/-- The number that the digits are read as. -/
def value (run : DigitRun) : ℕ := Nat.ofDigitChars 10 run.chars 0

/-- Digits are told from what is behind them, as long as that does not go on with a digit. -/
theorem eq_of_append_eq {run run' : DigitRun} {rest rest' : List Char}
    (hrest : ∀ c ∈ rest.head?, c.isDigit = false) (hrest' : ∀ c ∈ rest'.head?, c.isDigit = false)
    (h : run.chars ++ rest = run'.chars ++ rest') : run = run' ∧ rest = rest' := by
  obtain ⟨htake, hdrop⟩ := takeWhile_append_of_end rest run.isDigit hrest
  obtain ⟨htake', hdrop'⟩ := takeWhile_append_of_end rest' run'.isDigit hrest'
  constructor
  · ext1
    rw [← htake, h, htake']
  · rw [← hdrop, h, hdrop']

theorem isDigit_of_head? (run : DigitRun) (rest : List Char) :
    ∀ c ∈ (run.chars ++ rest).head?, c.isDigit := by
  obtain ⟨c, chars, hchars⟩ := List.exists_cons_of_ne_nil run.ne_nil
  have hc := run.isDigit c (by simp [hchars])
  simpa [hchars] using hc

end DigitRun

/-- The parts of a written number. -/
@[ext] structure Written where
  sign : Option Sign
  integral : DigitRun
  fraction : Option DigitRun
  exponent : Option (Sign × DigitRun)

namespace Written

variable {w w' : Written} {unsigned : List Char} {d : Decimal}

def signChars (w : Written) : List Char := w.sign.elim [] fun sign => [sign.char]

/-- The digits behind the point. -/
def fractionDigits (w : Written) : List Char := w.fraction.elim [] DigitRun.chars

/-- The digits on both sides of the point. -/
def digits (w : Written) : List Char := w.integral.chars ++ w.fractionDigits

/-- The point and the digits behind it. -/
def fractionChars (w : Written) : List Char := w.fraction.elim [] fun run => '.' :: run.chars

def exponentChars (w : Written) : List Char :=
  w.exponent.elim [] fun part => 'E' :: part.1.char :: part.2.chars

/-- How the number is spelled. -/
def chars (w : Written) : List Char :=
  w.signChars ++ (w.integral.chars ++ (w.fractionChars ++ w.exponentChars))

def text (w : Written) : String := String.ofList w.chars

/-- All of the digits, with the sign before them. -/
def coefficient (w : Written) : ℤ :=
  w.sign.elim id Sign.apply (Nat.ofDigitChars 10 w.digits 0)

/-- The written exponent, and zero where none is written. -/
def scale (w : Written) : ℤ := w.exponent.elim 0 fun part => part.1.apply part.2.value

/-- The number that is written: the digits behind the point count against the exponent. -/
def decimal (w : Written) : Decimal := ⟨w.coefficient, w.scale - w.fractionDigits.length⟩

/-! ## No two ways to take a text apart -/

private theorem isDigit_head?_exponentChars (w : Written) :
    ∀ c ∈ w.exponentChars.head?, c.isDigit = false := by
  unfold exponentChars
  cases w.exponent with
  | none => simp
  | some part => simp

private theorem isDigit_head?_fractionChars (w : Written) :
    ∀ c ∈ (w.fractionChars ++ w.exponentChars).head?, c.isDigit = false := by
  unfold fractionChars
  cases w.fraction with
  | none => simpa using w.isDigit_head?_exponentChars
  | some run => simp

private theorem sign_eq_of_append_eq {rest rest' : List Char}
    (hrest : ∀ c ∈ rest.head?, c.isDigit) (hrest' : ∀ c ∈ rest'.head?, c.isDigit)
    (h : w.signChars ++ rest = w'.signChars ++ rest') : w.sign = w'.sign ∧ rest = rest' := by
  -- a digit stands at the head where no sign does
  have hsign (s : Sign) : ¬ s.char.isDigit := by simp [s.isDigit_char]
  unfold signChars at h
  cases hw : w.sign <;> cases hw' : w'.sign <;> simp only [hw, hw', Option.elim] at h
  case none.none => exact ⟨rfl, h⟩
  case none.some s =>
    rw [List.nil_append, List.singleton_append] at h
    exact absurd (hrest s.char (by simp [h])) (hsign s)
  case some.none s =>
    rw [List.nil_append, List.singleton_append] at h
    exact absurd (hrest' s.char (by simp [← h])) (hsign s)
  case some.some s s' =>
    obtain ⟨hchar, h⟩ := List.cons_eq_cons.1 h
    exact ⟨congrArg some (Sign.char_injective hchar), h⟩

private theorem fraction_eq_of_append_eq
    (h : w.fractionChars ++ w.exponentChars = w'.fractionChars ++ w'.exponentChars) :
    w.fraction = w'.fraction ∧ w.exponentChars = w'.exponentChars := by
  -- what is behind the integral digits begins with a point only if there is a fraction
  have hpoint (w : Written) (rest : List Char) : w.exponentChars ≠ '.' :: rest := by
    unfold exponentChars
    cases w.exponent <;> simp
  unfold fractionChars at h
  cases hw : w.fraction <;> cases hw' : w'.fraction <;>
    simp only [hw, hw', Option.elim, List.nil_append, List.cons_append] at h
  case none.none => exact ⟨rfl, h⟩
  case none.some run => exact absurd h (hpoint w _)
  case some.none run => exact absurd h.symm (hpoint w' _)
  case some.some run run' =>
    obtain ⟨hrun, hrest⟩ := DigitRun.eq_of_append_eq w.isDigit_head?_exponentChars
      w'.isDigit_head?_exponentChars (List.cons_eq_cons.1 h).2
    exact ⟨congrArg some hrun, hrest⟩

private theorem exponent_eq_of_chars_eq (h : w.exponentChars = w'.exponentChars) :
    w.exponent = w'.exponent := by
  unfold exponentChars at h
  cases hw : w.exponent <;> cases hw' : w'.exponent <;> simp only [hw, hw', Option.elim] at h
  case none.none => rfl
  case none.some => cases h
  case some.none => cases h
  case some.some part part' =>
    obtain ⟨hsign, hrun⟩ := List.cons_eq_cons.1 (List.cons_eq_cons.1 h).2
    exact congrArg some (Prod.ext (Sign.char_injective hsign) (DigitRun.ext hrun))

theorem eq_of_chars_eq (h : w.chars = w'.chars) : w = w' := by
  obtain ⟨hsign, h⟩ := sign_eq_of_append_eq (w.integral.isDigit_of_head? _)
    (w'.integral.isDigit_of_head? _) h
  obtain ⟨hintegral, h⟩ := DigitRun.eq_of_append_eq w.isDigit_head?_fractionChars
    w'.isDigit_head?_fractionChars h
  obtain ⟨hfraction, h⟩ := fraction_eq_of_append_eq h
  exact Written.ext hsign hintegral hfraction (exponent_eq_of_chars_eq h)

theorem text_injective : Function.Injective text :=
  fun _ _ h => eq_of_chars_eq (String.ofList_inj.1 h)

/-! ## Numerals are written without sign and exponent -/

/-- What stands between the sign and the exponent is a numeral. -/
theorem numeral (w : Written) :
    Numeral (w.integral.chars ++ w.fractionChars) (ofDigits w.integral.chars w.fractionDigits) := by
  unfold fractionChars fractionDigits
  cases w.fraction with
  | none =>
      rw [Option.elim_none, Option.elim_none, List.append_nil]
      exact .whole w.integral.ne_nil w.integral.isDigit
  | some run => exact .point w.integral.ne_nil w.integral.isDigit run.ne_nil run.isDigit

/-- Every numeral can be written, behind any sign. -/
theorem exists_of_numeral (h : Numeral unsigned d) (sign : Option Sign) :
    ∃ w : Written, w.sign = sign ∧ w.exponent = none ∧
      w.chars = sign.elim [] (fun s => [s.char]) ++ unsigned ∧
      w.decimal = ⟨sign.elim id Sign.apply d.coefficient, d.exponent⟩ := by
  cases h with
  | whole hne hdigits =>
      refine ⟨⟨sign, ⟨_, hne, hdigits⟩, none, none⟩, rfl, rfl, ?_, ?_⟩
      · simp [chars, signChars, fractionChars, exponentChars]
      · simp [decimal, coefficient, scale, digits, fractionDigits, ofDigits]
  | point hne hdigits hne' hdigits' =>
      refine ⟨⟨sign, ⟨_, hne, hdigits⟩, some ⟨_, hne', hdigits'⟩, none⟩, rfl, rfl, ?_, ?_⟩
      · simp [chars, signChars, fractionChars, exponentChars]
      · simp [decimal, coefficient, scale, digits, fractionDigits, ofDigits]

end Written

variable {d : Decimal} {integral fraction : List Char}

/-! ## Where the point is put -/

theorem placePoint_length (hne : integral ≠ []) :
    placePoint integral integral.length = integral := by
  have hpos := List.length_pos_iff.2 hne
  unfold placePoint
  rw [if_neg (by omega), if_pos le_rfl, sub_self]
  exact List.append_nil integral

theorem placePoint_append (hne : integral ≠ []) (hne' : fraction ≠ []) :
    placePoint (integral ++ fraction) integral.length = integral ++ '.' :: fraction := by
  have hpos := List.length_pos_iff.2 hne
  have hpos' := List.length_pos_iff.2 hne'
  unfold placePoint
  rw [if_neg (by omega), if_neg (by rw [List.length_append]; omega), Int.toNat_natCast,
    List.take_left, List.drop_left]

theorem placePoint_of_nonpos {point : ℤ} (hpoint : point ≤ 0) (hlow : -2 ^ 63 < point) :
    placePoint fraction point = '0' :: '.' :: (List.replicate (-point).toNat '0' ++ fraction) := by
  unfold placePoint
  rw [if_pos hpoint, Register.wrap_eq (by omega) (by omega)]

/-! ## Plain texts -/

private theorem plain_of_neg (hd : d.coefficient < 0) :
    d.plain = ⟨-d.abs.plain.coefficient, d.abs.plain.exponent⟩ := by
  have habs : -(d.coefficient.natAbs : ℤ) = d.coefficient := by omega
  unfold plain abs
  dsimp only
  split
  · rw [habs]
  · rw [neg_mul_eq_neg_mul, habs]

/-- The plain text of a number is written without an exponent and never with a plus. -/
theorem exists_written_plainChars (h : d.Writable) :
    ∃ w : Written, w.sign ≠ some .plus ∧ w.exponent = none ∧ w.chars = d.plainChars ∧
      w.decimal = d.plain := by
  rcases le_or_gt 0 d.coefficient with hd | hd
  · obtain ⟨w, hsign, hexponent, hchars, hdecimal⟩ :=
      Written.exists_of_numeral (numeral_plainChars hd h) none
    exact ⟨w, by simp [hsign], hexponent, hchars, hdecimal⟩
  · have habs : 0 ≤ d.abs.coefficient := Int.natCast_nonneg _
    obtain ⟨w, hsign, hexponent, hchars, hdecimal⟩ :=
      Written.exists_of_numeral (numeral_plainChars habs h.abs) (some .minus)
    refine ⟨w, by simp [hsign], hexponent, ?_, ?_⟩
    · rw [hchars, plainChars_of_neg hd]
      rfl
    · rw [hdecimal, plain_of_neg hd]
      rfl

end Decimal

end Reckon
