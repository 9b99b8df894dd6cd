import Reckon.Decimal.Quotient
import Reckon.Proofs.Decimal.Rounded

/-!
# Division without bounds

`divTo` works with exponents that a register holds and with powers of ten up to a cap.
`divExactly` is the same division without either, so that it also says what becomes of a dividend
too long to be written out.

With the dividend scaled to `precision + 1` or `precision + 2` digits before the point
(`scaledQuotient_mem`), the long division comes to one of two ends (`divUnroundedExactly_cases`).
Either the scaled quotient is a whole number, and what is found is that number without some of its
zeros, or it is not, and what is found is the whole part, moved off a zero or a five.  Moved off it,
the whole part lies in the same gap between multiples of five as the scaled quotient
(`sameSide_five`), so the two are rounded alike (`roundsAs_signedQuotient`).
-/

namespace Reckon.Decimal

variable {p : ℕ} {m : ℤ} {a b : Decimal}

/-! ## The definition -/

/-- A number that rounds to `p` digits as the quotient of two numbers other than zero does, without
its sign.  The zeros that the operands are short of are all written out. -/
def divUnroundedExactly (p : ℕ) (a b : Decimal) : ℕ × ℤ :=
  let ideal := a.exponent - b.exponent
  let shift : ℤ := b.digits - a.digits + p + 1
  let dividend := a.coefficient.natAbs * 10 ^ shift.toNat
  let divisor := b.coefficient.natAbs * 10 ^ (-shift).toNat
  let quotient := dividend / divisor
  let exponent := ideal - shift
  if dividend % divisor = 0 then stripZeros (ideal - exponent).toNat quotient exponent
  else if quotient % 5 = 0 then (quotient + 1, exponent)
  else (quotient, exponent)

/-- What the long division finds, with the sign that the operands give it. -/
def signedQuotient (p : ℕ) (a b : Decimal) : Decimal :=
  let (quotient, exponent) := divUnroundedExactly p a b
  ⟨if a.isNegative = b.isNegative then quotient else -quotient, exponent⟩

/-- The quotient, made to fit `p` digits and exponents up to `m`. -/
def divExactly (p : ℕ) (m : ℤ) (a b : Decimal) : Except ArithmeticFault Decimal :=
  if b.coefficient = 0 then .error .divisionByZero
  else if a.coefficient = 0 then (⟨0, a.exponent - b.exponent⟩ : Decimal).roundExactly p m
  else (signedQuotient p a b).roundExactly p m

/-! ## Scaling -/

/-- Zeros are only taken off, and each is counted: scaled up again, the number is the one before.
Unless as many are taken as may be, none is left at the end. -/
theorem stripZeros_scaled (most : ℕ) : ∀ (n : ℕ) (exponent : ℤ), ∃ taken ≤ most,
    (stripZeros most n exponent).2 = exponent + taken ∧
      (stripZeros most n exponent).1 * 10 ^ taken = n ∧
      (taken = most ∨ (stripZeros most n exponent).1 % 10 ≠ 0) := by
  induction most with
  | zero =>
      intro n exponent
      exact ⟨0, le_rfl, by simp [stripZeros], by simp [stripZeros], Or.inl rfl⟩
  | succ most ih =>
      intro n exponent
      unfold stripZeros
      split
      · next hzero =>
        obtain ⟨taken, hle, hexponent, hscaled, hrest⟩ := ih (n / 10) (exponent + 1)
        refine ⟨taken + 1, Nat.succ_le_succ hle, by rw [hexponent]; push_cast; ring, ?_,
          hrest.imp_left (congrArg Nat.succ)⟩
        rw [pow_succ, ← mul_assoc, hscaled]
        omega
      · next hrest => exact ⟨0, Nat.zero_le _, by simp, by simp, Or.inr hrest⟩

private theorem natDiv_spec {n k : ℕ} (hk : 0 < k) :
    ((n / k : ℕ) : ℚ) ≤ n / k ∧ (n : ℚ) / k < (n / k : ℕ) + 1 ∧
      (n % k = 0 ↔ (n : ℚ) / k = (n / k : ℕ)) := by
  have hkpos : (0 : ℚ) < k := by exact_mod_cast hk
  have hsplit : (n : ℚ) = k * (n / k : ℕ) + (n % k : ℕ) := by
    exact_mod_cast (Nat.div_add_mod n k).symm
  have hrest : ((n % k : ℕ) : ℚ) < k := by exact_mod_cast Nat.mod_lt n hk
  have hquotient : (n : ℚ) / k = (n / k : ℕ) + (n % k : ℕ) / k := by
    field_simp
    linarith
  have hfraction : ((n % k : ℕ) : ℚ) / k < 1 := (div_lt_one hkpos).2 hrest
  refine ⟨?_, by linarith, ?_⟩
  · have : (0 : ℚ) ≤ ((n % k : ℕ) : ℚ) / k := by positivity
    linarith
  · rw [hquotient, add_eq_left, div_eq_zero_iff, or_iff_left hkpos.ne']
    exact_mod_cast Iff.rfl

/-- How many places the dividend is moved up, or the divisor if this is negative. -/
def quotientShift (p : ℕ) (a b : Decimal) : ℤ := b.digits - a.digits + p + 1

/-- The exponent that the long division stops at. -/
def quotientExponent (p : ℕ) (a b : Decimal) : ℤ :=
  a.exponent - b.exponent - (b.digits - a.digits + p + 1)

/-- The quotient in units of the last place of the long division. -/
def scaledQuotient (p : ℕ) (a b : Decimal) : ℚ :=
  |a.value / b.value| / 10 ^ quotientExponent p a b

theorem scaledQuotient_mul (p : ℕ) (a b : Decimal) :
    scaledQuotient p a b * 10 ^ quotientExponent p a b = |a.value / b.value| :=
  div_mul_cancel₀ _ (ten_zpow_pos _).ne'

theorem scaledQuotient_eq (p : ℕ) (a b : Decimal) :
    scaledQuotient p a b = (a.coefficient.natAbs : ℚ) / b.coefficient.natAbs *
      10 ^ quotientShift p a b := by
  have hscale : (10 : ℚ) ^ a.exponent = 10 ^ quotientShift p a b *
      10 ^ b.exponent * 10 ^ quotientExponent p a b := by
    rw [← ten_zpow_add, ← ten_zpow_add]
    congr 1
    unfold quotientExponent quotientShift
    omega
  have hb := (ten_zpow_pos b.exponent).ne'
  have hunit := (ten_zpow_pos (quotientExponent p a b)).ne'
  have hcast : ∀ c : ℤ, ((|c| : ℤ) : ℚ) = c.natAbs := by
    intro c
    rw [Int.abs_eq_natAbs, Int.cast_natCast]
  unfold scaledQuotient
  rw [abs_div, abs_value, abs_value, hcast, hcast, hscale]
  field_simp

/-- A power of ten scales the dividend where its exponent is positive, and the divisor where it is
negative. -/
private theorem div_mul_ten_zpow (n k : ℕ) (shift : ℤ) :
    (n : ℚ) / k * 10 ^ shift =
      ((n * 10 ^ shift.toNat : ℕ) : ℚ) / ((k * 10 ^ (-shift).toNat : ℕ) : ℚ) := by
  have hshift : (10 : ℚ) ^ shift = 10 ^ shift.toNat / 10 ^ (-shift).toNat := by
    conv_lhs => rw [← Int.toNat_sub_toNat_neg shift]
    rw [zpow_sub₀ (by norm_num), zpow_natCast, zpow_natCast]
  rw [hshift, div_mul_div_comm]
  push_cast
  rfl

/-- The scaled quotient has one digit or two more than the result. -/
theorem scaledQuotient_mem (ha : a.coefficient ≠ 0) (hb : b.coefficient ≠ 0) :
    10 ^ p ≤ scaledQuotient p a b ∧ scaledQuotient p a b < 10 ^ (p + 2) := by
  have hbounds : ∀ {d : Decimal}, d.coefficient ≠ 0 →
      (10 : ℚ) ^ ((d.digits : ℤ) - 1) ≤ d.coefficient.natAbs ∧
        (d.coefficient.natAbs : ℚ) < 10 ^ (d.digits : ℤ) := by
    intro d hd
    have hpos := d.digits_pos
    have hlow := pow_le_abs_coefficient hd
    have hhigh := d.abs_coefficient_lt
    rw [Int.abs_eq_natAbs] at hlow hhigh
    rw [show (d.digits : ℤ) - 1 = ((d.digits - 1 : ℕ) : ℤ) by omega, zpow_natCast, zpow_natCast]
    exact ⟨by exact_mod_cast hlow, by exact_mod_cast hhigh⟩
  obtain ⟨halow, hahigh⟩ := hbounds ha
  obtain ⟨hblow, hbhigh⟩ := hbounds hb
  have hbpos : (0 : ℚ) < b.coefficient.natAbs := (ten_zpow_pos _).trans_le hblow
  rw [scaledQuotient_eq, div_mul_eq_mul_div]
  constructor
  · rw [le_div_iff₀ hbpos]
    calc (10 : ℚ) ^ p * b.coefficient.natAbs ≤ 10 ^ p * 10 ^ (b.digits : ℤ) := by gcongr
      _ = 10 ^ ((a.digits : ℤ) - 1) * 10 ^ quotientShift p a b := by
          rw [← zpow_natCast, ← ten_zpow_add, ← ten_zpow_add]
          congr 1
          unfold quotientShift
          omega
      _ ≤ a.coefficient.natAbs * 10 ^ quotientShift p a b := by gcongr
  · rw [div_lt_iff₀ hbpos]
    calc (a.coefficient.natAbs : ℚ) * 10 ^ quotientShift p a b
        < 10 ^ (a.digits : ℤ) * 10 ^ quotientShift p a b := by gcongr
      _ = 10 ^ (p + 2) * 10 ^ ((b.digits : ℤ) - 1) := by
          rw [← ten_zpow_add, ← zpow_natCast, ← ten_zpow_add]
          congr 1
          unfold quotientShift
          omega
      _ ≤ 10 ^ (p + 2) * b.coefficient.natAbs := by gcongr

/-! ## The quotient before it is rounded -/

/-- A scaled quotient that is whole loses zeros only, down to its last other digit or until those
are taken off that it was given; of any other the whole part is kept, or the next number after it,
which no longer ends in a zero or a five. -/
theorem divUnroundedExactly_cases (p : ℕ) (a : Decimal) (hb0 : b.coefficient ≠ 0) :
    ∃ q : ℕ, (q : ℚ) ≤ scaledQuotient p a b ∧ scaledQuotient p a b < q + 1 ∧
      ((scaledQuotient p a b = q ∧ ∃ taken ≤ (quotientShift p a b).toNat,
          (divUnroundedExactly p a b).2 = quotientExponent p a b + taken ∧
            (divUnroundedExactly p a b).1 * 10 ^ taken = q ∧
            (taken = (quotientShift p a b).toNat ∨
              (divUnroundedExactly p a b).1 % 10 ≠ 0)) ∨
        (scaledQuotient p a b ≠ q ∧
          divUnroundedExactly p a b =
            (if q % 5 = 0 then q + 1 else q, quotientExponent p a b))) := by
  have hdivisor : 0 < b.coefficient.natAbs * 10 ^ (-quotientShift p a b).toNat :=
    Nat.mul_pos (Int.natAbs_pos.2 hb0) (by positivity)
  obtain ⟨hle, hlt, hrest⟩ := natDiv_spec hdivisor
    (n := a.coefficient.natAbs * 10 ^ (quotientShift p a b).toNat)
  rw [← div_mul_ten_zpow, ← scaledQuotient_eq] at hle hlt hrest
  have hshift : (b.digits : ℤ) - a.digits + p + 1 = quotientShift p a b := rfl
  have hexponent : a.exponent - b.exponent - quotientShift p a b = quotientExponent p a b := rfl
  refine ⟨_, hle, hlt, ?_⟩
  unfold divUnroundedExactly
  dsimp only
  rw [hshift, hexponent]
  split
  · next hzero =>
    have hgiven : (a.exponent - b.exponent - quotientExponent p a b).toNat =
        (quotientShift p a b).toNat := by
      rw [← hexponent, sub_sub_cancel]
    obtain ⟨taken, htaken, hsnd, hfst, hstop⟩ := stripZeros_scaled
      (a.exponent - b.exponent - quotientExponent p a b).toNat
      (a.coefficient.natAbs * 10 ^ (quotientShift p a b).toNat /
        (b.coefficient.natAbs * 10 ^ (-quotientShift p a b).toNat))
      (quotientExponent p a b)
    exact Or.inl ⟨hrest.1 hzero, taken, htaken.trans_eq hgiven, hsnd, hfst,
      hstop.imp_left (·.trans hgiven)⟩
  · next hzero =>
    refine Or.inr ⟨fun h => hzero (hrest.2 h), ?_⟩
    split <;> rfl

/-- A number between two neighbouring integers lies in the same gap between multiples of five as
the lower of them, moved off such a multiple. -/
private theorem sameSide_five {q : ℕ} {x : ℚ} (hle : q ≤ x) (hne : x ≠ q) (hlt : x < q + 1) :
    SameSide 5 x ((if q % 5 = 0 then q + 1 else q : ℕ) : ℚ) := by
  have hgt : (q : ℚ) < x := lt_of_le_of_ne hle (Ne.symm hne)
  have hlow : ((q / 5 : ℕ) : ℚ) * 5 ≤ q := by
    exact_mod_cast Nat.div_mul_le_self q 5
  have hhigh : (q : ℚ) + 1 ≤ (((q / 5 : ℕ) : ℚ) + 1) * 5 := by
    have : q + 1 ≤ (q / 5 + 1) * 5 := by omega
    exact_mod_cast this
  have hmoved : q / 5 * 5 < (if q % 5 = 0 then q + 1 else q) ∧
      (if q % 5 = 0 then q + 1 else q) < (q / 5 + 1) * 5 := by
    split <;> omega
  refine SameSide.of_between (k := (q / 5 : ℕ)) (by norm_num) ?_ ?_ <;> rw [Int.cast_natCast]
  · exact ⟨by linarith, by linarith⟩
  · exact ⟨by exact_mod_cast hmoved.1, by exact_mod_cast hmoved.2⟩

/-- The magnitude that is found is rounded as that of the quotient. -/
private theorem roundsAs_divUnroundedExactly (ha0 : a.coefficient ≠ 0) (hb0 : b.coefficient ≠ 0) :
    RoundsAs p |a.value / b.value|
      ((divUnroundedExactly p a b).1 * 10 ^ (divUnroundedExactly p a b).2) := by
  have hunit := ten_zpow_pos (quotientExponent p a b)
  obtain ⟨q, hle, hlt, ⟨heq, taken, -, hsnd, hfst, -⟩ | ⟨hne, heq⟩⟩ :=
    divUnroundedExactly_cases p a hb0
  · left
    rw [← scaledQuotient_mul p, heq, hsnd, ← hfst, ten_zpow_add, zpow_natCast]
    push_cast
    ring
  · -- the last digit of the long division stands below the leading one by `precision` places
    right
    refine ⟨quotientExponent p a b, ?_, ?_⟩
    · rw [add_comm, abs_abs]
      apply le_log
      rw [ten_zpow_add, zpow_natCast, ← scaledQuotient_mul p]
      exact mul_le_mul_of_nonneg_right (scaledQuotient_mem ha0 hb0).1 hunit.le
    · rw [← scaledQuotient_mul p, heq]
      exact (sameSide_five hle hne hlt).mul_right hunit

private theorem value_div_pos_iff (ha0 : a.coefficient ≠ 0) (hb0 : b.coefficient ≠ 0) :
    0 < a.value / b.value ↔ a.isNegative = b.isNegative := by
  have hne : ∀ {d : Decimal}, d.coefficient ≠ 0 → (0 < d.value ↔ ¬ d.value < 0) := by
    intro d hd
    rw [not_lt]
    exact ⟨le_of_lt, fun h => lt_of_le_of_ne h (Ne.symm (by simpa using hd))⟩
  rw [div_pos_iff, hne ha0, hne hb0, value_lt_zero_iff, value_lt_zero_iff, ← isNegative_iff,
    ← isNegative_iff]
  cases a.isNegative <;> cases b.isNegative <;> simp

/-- What is found has the sign of the quotient. -/
private theorem value_signedQuotient_cases (p : ℕ) (ha0 : a.coefficient ≠ 0)
    (hb0 : b.coefficient ≠ 0) :
    (0 < a.value / b.value ∧ (signedQuotient p a b).value =
        (divUnroundedExactly p a b).1 * 10 ^ (divUnroundedExactly p a b).2) ∨
      (a.value / b.value < 0 ∧ (signedQuotient p a b).value =
        -((divUnroundedExactly p a b).1 * 10 ^ (divUnroundedExactly p a b).2)) := by
  have hsign := value_div_pos_iff ha0 hb0
  unfold signedQuotient
  dsimp only
  by_cases heq : a.isNegative = b.isNegative
  · left
    rw [if_pos heq]
    exact ⟨hsign.2 heq, by simp only [value, Int.cast_natCast]⟩
  · right
    have hneg : a.value / b.value < 0 :=
      lt_of_le_of_ne (not_lt.1 (mt hsign.1 heq)) (by simp [ha0, hb0])
    rw [if_neg heq]
    exact ⟨hneg, by simp only [value, Int.cast_neg, Int.cast_natCast, neg_mul]⟩

/-- With the sign that the operands give it, what is found is rounded as the quotient. -/
theorem roundsAs_signedQuotient (ha0 : a.coefficient ≠ 0) (hb0 : b.coefficient ≠ 0) :
    RoundsAs p (a.value / b.value) (signedQuotient p a b).value := by
  have hmagnitude := roundsAs_divUnroundedExactly (p := p) ha0 hb0
  rcases value_signedQuotient_cases p ha0 hb0 with ⟨hpos, hvalue⟩ | ⟨hneg, hvalue⟩
  · rw [abs_of_pos hpos] at hmagnitude
    rwa [hvalue]
  · rw [abs_of_neg hneg] at hmagnitude
    rw [hvalue, ← neg_neg (a.value / b.value)]
    exact hmagnitude.neg

/-! ## The size of what is found -/

private theorem abs_coefficient_signedQuotient (p : ℕ) (a b : Decimal) :
    |(signedQuotient p a b).coefficient| = (divUnroundedExactly p a b).1 := by
  unfold signedQuotient
  dsimp only
  split
  · exact Nat.abs_cast _
  · rw [abs_neg, Nat.abs_cast]

/-- What is found has at most three digits more than the result, and its exponent moves up by at
most the zeros that the dividend was given. -/
theorem signedQuotient_mem (p : ℕ) (ha0 : a.coefficient ≠ 0) (hb0 : b.coefficient ≠ 0) :
    (signedQuotient p a b).digits ≤ p + 3 ∧
      quotientExponent p a b ≤ (signedQuotient p a b).exponent ∧
      (signedQuotient p a b).exponent ≤
        quotientExponent p a b + (quotientShift p a b).toNat := by
  obtain ⟨q, hle, hlt, hcases⟩ := divUnroundedExactly_cases p a hb0
  have hexponent : (signedQuotient p a b).exponent = (divUnroundedExactly p a b).2 := rfl
  have hq : q < 10 ^ (p + 2) := by
    exact_mod_cast hle.trans_lt (scaledQuotient_mem ha0 hb0).2
  have hten : 10 ^ (p + 2) + 1 ≤ 10 ^ (p + 3) := by
    have : 0 < 10 ^ (p + 2) := by positivity
    rw [pow_succ 10 (p + 2)]
    omega
  have hsize : (divUnroundedExactly p a b).1 ≤ q + 1 := by
    rcases hcases with ⟨-, taken, -, -, hfst, -⟩ | ⟨-, heq⟩
    · rw [← hfst]
      exact (Nat.le_mul_of_pos_right _ (by positivity)).trans (Nat.le_succ _)
    · rw [heq]
      dsimp only
      split <;> omega
  constructor
  · rw [digits_le_iff (by omega), abs_coefficient_signedQuotient]
    exact_mod_cast (by omega : (divUnroundedExactly p a b).1 < 10 ^ (p + 3))
  · rw [hexponent]
    rcases hcases with ⟨-, taken, htaken, hsnd, -⟩ | ⟨-, heq⟩
    · omega
    · rw [heq]
      dsimp only
      omega

/-- As long as no digit of the whole part is taken off, more digits are found than are kept. -/
private theorem lt_digits_of_le {q : ℕ} (hp : 0 < p) (ha0 : a.coefficient ≠ 0)
    (hb0 : b.coefficient ≠ 0) (hlt : scaledQuotient p a b < q + 1)
    (hle : q ≤ (divUnroundedExactly p a b).1) : p < (signedQuotient p a b).digits := by
  have hlow : 10 ^ p ≤ q := by
    have : ((10 ^ p : ℕ) : ℚ) < (q + 1 : ℕ) := by
      push_cast
      exact (scaledQuotient_mem ha0 hb0).1.trans_lt hlt
    exact Nat.lt_succ_iff.1 (by exact_mod_cast this)
  rw [← not_le, digits_le_iff hp, not_lt, abs_coefficient_signedQuotient]
  exact_mod_cast hlow.trans hle

/-- A dividend that is long enough needs no zeros, so none are taken off again, and more digits are
found than are kept. -/
theorem lt_digits_signedQuotient (hp : 0 < p) (ha0 : a.coefficient ≠ 0) (hb0 : b.coefficient ≠ 0)
    (hlong : b.digits + p + 1 ≤ a.digits) : p < (signedQuotient p a b).digits := by
  obtain ⟨q, hle, hlt, hcases⟩ := divUnroundedExactly_cases p a hb0
  refine lt_digits_of_le hp ha0 hb0 hlt ?_
  rcases hcases with ⟨-, taken, htaken, -, hfst, -⟩ | ⟨-, heq⟩
  · unfold quotientShift at htaken
    obtain rfl : taken = 0 := by omega
    rw [← hfst, pow_zero, mul_one]
  · rw [heq]
    dsimp only
    split <;> omega

/-- Either what is found is the quotient, without zeros at its end or with the exponent that they
were taken off to; or the quotient has too many digits, and more are found than are kept. -/
theorem signedQuotient_cases (hp : 0 < p) (ha0 : a.coefficient ≠ 0) (hb0 : b.coefficient ≠ 0) :
    ((signedQuotient p a b).value = a.value / b.value ∧
        ((signedQuotient p a b).exponent =
            max (a.exponent - b.exponent) (quotientExponent p a b) ∨
          (signedQuotient p a b).exponent ≤ a.exponent - b.exponent ∧
            ¬(10 : ℤ) ∣ (signedQuotient p a b).coefficient)) ∨
      (¬Representable p (a.value / b.value) ∧ p < (signedQuotient p a b).digits) := by
  have hexponent : (signedQuotient p a b).exponent = (divUnroundedExactly p a b).2 := rfl
  obtain ⟨q, hle, hlt, ⟨heq, taken, htaken, hsnd, hfst, hstop⟩ | ⟨hne, heq⟩⟩ :=
    divUnroundedExactly_cases p a hb0
  · left
    constructor
    · have hmagnitude : ((divUnroundedExactly p a b).1 : ℚ) * 10 ^ (divUnroundedExactly p a b).2 =
          |a.value / b.value| := by
        rw [← scaledQuotient_mul p, heq, hsnd, ← hfst, ten_zpow_add, zpow_natCast]
        push_cast
        ring
      rcases value_signedQuotient_cases p ha0 hb0 with ⟨hpos, hvalue⟩ | ⟨hneg, hvalue⟩
      · rw [hvalue, hmagnitude, abs_of_pos hpos]
      · rw [hvalue, hmagnitude, abs_of_neg hneg, neg_neg]
    · rw [hexponent, hsnd]
      unfold quotientExponent quotientShift at *
      rcases hstop with rfl | hrest
      · left
        omega
      · have hdvd : (10 : ℤ) ∣ (signedQuotient p a b).coefficient ↔
            10 ∣ (divUnroundedExactly p a b).1 := by
          rw [← dvd_abs, abs_coefficient_signedQuotient]
          exact_mod_cast Iff.rfl
        rw [hdvd, Nat.dvd_iff_mod_eq_zero]
        omega
  · -- the whole part falls short of the quotient, and what is found in its place is not it either
    right
    have hsize : q ≤ (divUnroundedExactly p a b).1 := by
      rw [heq]
      dsimp only
      split <;> omega
    refine ⟨fun h => hne (le_antisymm ?_ hle), lt_digits_of_le hp ha0 hb0 hlt hsize⟩
    have hexact := (roundsAs_signedQuotient ha0 hb0).eq_of_representable h
    have hfound : scaledQuotient p a b = (divUnroundedExactly p a b).1 := by
      rw [scaledQuotient, hexact, abs_value, abs_coefficient_signedQuotient, hexponent, heq]
      exact mul_div_cancel_right₀ _ (ten_zpow_pos _).ne'
    rw [hfound] at hlt ⊢
    have hbelow : (divUnroundedExactly p a b).1 < q + 1 := by exact_mod_cast hlt
    exact_mod_cast Nat.lt_succ_iff.1 hbelow

end Reckon.Decimal
