import Mathlib.RingTheory.Int.Basic
import Mathlib.RingTheory.Multiplicity
import Reckon.Decimal.Power.Integral
import Reckon.Proofs.Decimal.Order
import Reckon.Proofs.Decimal.Quotient
import Reckon.Proofs.Decimal.Whole
import Reckon.Proofs.Except

/-!
# Powers with whole exponents

Squaring multiplies up powers of the base.  If the last of them is representable, so are all that
come before it (`fits_pow_of_le`): a base without zeros at its end has powers without zeros at
their ends, so their digits only grow, and their leading digits move in one direction.  Hence every
product on the way is exact (`powBySquaring_of_fits`), and so is the power.

Where the exponent has more than twenty digits only the bases one and minus one have representable
powers (`abs_eq_one_of_fits_pow`).
-/

namespace Reckon

/-! ## Powers without zeros at their ends -/

theorem not_ten_dvd_pow {c : ℤ} (hc : ¬ (10 : ℤ) ∣ c) (n : ℕ) : ¬ (10 : ℤ) ∣ c ^ n := by
  intro hten
  have htwo : (2 : ℤ) ∣ c := Int.prime_two.dvd_of_dvd_pow ((by norm_num : (2 : ℤ) ∣ 10).trans hten)
  have hprime : Prime (5 : ℤ) := Int.prime_iff_natAbs_prime.2 Nat.prime_five
  have hfive : (5 : ℤ) ∣ c := hprime.dvd_of_dvd_pow ((by norm_num : (5 : ℤ) ∣ 10).trans hten)
  omega

/-- A coefficient without zeros at its end is the shortest. -/
theorem abs_lt_of_representable {p : ℕ} {c e : ℤ} (hc : ¬ (10 : ℤ) ∣ c)
    (h : Representable p (c * 10 ^ e)) : |c| < 10 ^ p := by
  obtain ⟨c', e', hc', heq⟩ := h
  rcases le_or_gt e' e with hle | hlt
  · have hcoefficient : c' = c * 10 ^ (e - e').toNat := by
      rw [mul_ten_zpow_eq hle] at heq
      exact_mod_cast (mul_right_cancel₀ (ten_zpow_pos e').ne' heq).symm
    calc |c| ≤ |c| * 10 ^ (e - e').toNat := by
          exact le_mul_of_one_le_right (abs_nonneg c) (one_le_pow₀ (by norm_num))
      _ = |c'| := by rw [hcoefficient, abs_mul, abs_of_pos (by positivity : (0 : ℤ) < 10 ^ _)]
      _ < 10 ^ p := hc'
  · -- a shorter coefficient would leave zeros at the end of this one
    refine absurd ?_ hc
    have hcoefficient : c = c' * 10 ^ (e' - e).toNat := by
      rw [mul_ten_zpow_eq hlt.le] at heq
      exact_mod_cast mul_right_cancel₀ (ten_zpow_pos e).ne' heq
    rw [hcoefficient]
    exact (dvd_pow_self 10 (by omega)).mul_left c'

namespace Decimal

variable {p : ℕ} {m : ℤ} {a b r : Decimal}

/-- The value with the zeros at the end of the coefficient counted in the exponent. -/
theorem exists_value_eq (ha : a.coefficient ≠ 0) :
    ∃ c e : ℤ, ¬ (10 : ℤ) ∣ c ∧ a.value = c * 10 ^ e := by
  have hfinite : FiniteMultiplicity 10 a.coefficient :=
    Int.finiteMultiplicity_iff.2 ⟨by norm_num, ha⟩
  obtain ⟨c, hc, hdvd⟩ := hfinite.exists_eq_pow_mul_and_not_dvd
  refine ⟨c, a.exponent + multiplicity 10 a.coefficient, hdvd, ?_⟩
  rw [ten_zpow_add, zpow_natCast, value]
  conv_lhs => rw [hc]
  push_cast
  ring

private theorem value_pow {c e : ℤ} (hvalue : a.value = c * 10 ^ e) (n : ℕ) :
    a.value ^ n = ((c ^ n : ℤ) : ℚ) * 10 ^ (e * n) := by
  rw [hvalue, mul_pow, zpow_mul, zpow_natCast]
  push_cast
  rfl

theorem representable_pow_of_le {n k : ℕ} (ha : a.coefficient ≠ 0)
    (h : Representable p (a.value ^ n)) (hk : k ≤ n) : Representable p (a.value ^ k) := by
  obtain ⟨c, e, hc, hvalue⟩ := exists_value_eq ha
  rw [value_pow hvalue] at h
  have hlast := abs_lt_of_representable (not_ten_dvd_pow hc n) h
  refine ⟨c ^ k, e * k, ?_, value_pow hvalue k⟩
  have hc0 : c ≠ 0 := by
    rintro rfl
    exact hc (dvd_zero 10)
  calc |c ^ k| = |c| ^ k := abs_pow c k
    _ ≤ |c| ^ n := pow_le_pow_right₀ (Int.one_le_abs hc0) hk
    _ = |c ^ n| := (abs_pow c n).symm
    _ < 10 ^ p := hlast

/-- The leading digits of powers move in one direction, away from that of one. -/
private theorem log_pow_mem {x : ℚ} (hx : x ≠ 0) {n k : ℕ} (hk : k ≤ n) :
    min 0 (Int.log 10 |x ^ n|) ≤ Int.log 10 |x ^ k| ∧
      Int.log 10 |x ^ k| ≤ max 0 (Int.log 10 |x ^ n|) := by
  have hpos : 0 < |x| := abs_pos.2 hx
  rw [abs_pow, abs_pow, ← Int.log_one_right (R := ℚ) 10]
  rcases le_total 1 |x| with hge | hle
  · have hlow := Int.log_mono_right (b := 10) one_pos (one_le_pow₀ hge (n := k))
    have hhigh := Int.log_mono_right (b := 10) (by positivity) (pow_le_pow_right₀ hge hk)
    omega
  · have hhigh := Int.log_mono_right (b := 10) (by positivity) (pow_le_one₀ hpos.le hle (n := k))
    have hlow := Int.log_mono_right (b := 10) (by positivity)
      (pow_le_pow_of_le_one hpos.le hle hk)
    omega

/-- A power that fits has only powers before it that fit. -/
theorem fits_pow_of_le {n k : ℕ} (hm : 0 ≤ m) (ha : a.coefficient ≠ 0)
    (h : Fits p m (a.value ^ n)) (hk : k ≤ n) : Fits p m (a.value ^ k) := by
  have hne : a.value ≠ 0 := by simpa using ha
  obtain hzero | ⟨hrepresentable, hlow, hhigh⟩ := h
  · exact absurd hzero (pow_ne_zero n hne)
  · have hlog := log_pow_mem hne hk
    exact Or.inr ⟨representable_pow_of_le ha hrepresentable hk, by omega, by omega⟩

theorem Fits.mono {p p' : ℕ} {x : ℚ} (h : Fits p m x) (hle : p ≤ p') : Fits p' m x := by
  obtain hzero | ⟨hrepresentable, hlow, hhigh⟩ := h
  · exact Or.inl hzero
  · exact Or.inr ⟨hrepresentable.mono hle, hlow, hhigh⟩

/-! ## Repeated squaring -/

private theorem mulTo_of_fits (h : Manageable p m) (ha : a.Moderate) (hb : b.Moderate) {x : ℚ}
    (hx : a.value * b.value = x) (hfits : Fits p m x) :
    ∃ r, mulTo p m a b = .ok r ∧ r.Normal p m ∧ r.value = x := by
  have hrounds := (roundsOnce_mulTo (p := p) (m := m) ha hb).rounds
  rw [hx] at hrounds
  obtain ⟨r, hr, hvalue⟩ := hrounds.of_fits h hfits
  exact ⟨r, hr, normal_mulTo h ha hb hr, hvalue⟩

/-- Every power that squaring passes through is one of those up to the last, so it is exact. -/
theorem powBySquaring_of_fits (h : Manageable p m) (ha : a.Moderate) :
    ∀ n : ℕ, (∀ k ≤ n, Fits p m (a.value ^ k)) →
      ∃ r, powBySquaring p m a n = .ok r ∧ r.Normal p m ∧ r.value = a.value ^ n := by
  intro n
  induction n using Nat.strong_induction_on with
  | _ n ih =>
      intro hfits
      rw [powBySquaring]
      by_cases hn : n = 0
      · exact ⟨.one, by rw [if_pos hn], normal_one h, by rw [hn, value_one, pow_zero]⟩
      · obtain ⟨half, hhalf, hnormal, hvalue⟩ := ih (n / 2) (by omega)
          fun k hk => hfits k (by omega)
        have hmoderate := hnormal.moderate h
        obtain ⟨square, hsquare, hsquareNormal, hsquareValue⟩ :=
          mulTo_of_fits h hmoderate hmoderate (by rw [hvalue, ← pow_add])
            (hfits (n / 2 + n / 2) (by omega))
        rw [if_neg hn]
        -- the square is the power of the even number next to the exponent
        by_cases heven : n % 2 = 0
        · refine ⟨square, ?_, hsquareNormal, ?_⟩
          · refine Except.bind_eq_ok_iff.2 ⟨half, hhalf, ?_⟩
            refine Except.bind_eq_ok_iff.2 ⟨square, hsquare, ?_⟩
            rw [if_pos heven]
            rfl
          · rw [hsquareValue, show n / 2 + n / 2 = n by omega]
        · obtain ⟨r, hr, hrNormal, hrValue⟩ :=
            mulTo_of_fits h (hsquareNormal.moderate h) ha
              (by rw [hsquareValue, ← pow_succ, show n / 2 + n / 2 + 1 = n by omega])
              (hfits n le_rfl)
          refine ⟨r, ?_, hrNormal, hrValue⟩
          refine Except.bind_eq_ok_iff.2 ⟨half, hhalf, ?_⟩
          refine Except.bind_eq_ok_iff.2 ⟨square, hsquare, ?_⟩
          rw [if_neg heven]
          exact hr

/-- Whatever squaring returns is in normal form. -/
theorem normal_powBySquaring (h : Manageable p m) (ha : a.Moderate) :
    ∀ (n : ℕ) {r : Decimal}, powBySquaring p m a n = .ok r → r.Normal p m := by
  intro n
  induction n using Nat.strong_induction_on with
  | _ n ih =>
      intro r hr
      rw [powBySquaring] at hr
      split at hr
      · cases hr
        exact normal_one h
      · obtain ⟨half, hhalf, hr⟩ := Except.bind_eq_ok_iff.1 hr
        obtain ⟨square, hsquare, hr⟩ := Except.bind_eq_ok_iff.1 hr
        have hmoderate := (ih (n / 2) (by omega) hhalf).moderate h
        have hnormal := normal_mulTo h hmoderate hmoderate hsquare
        split at hr
        · cases hr
          exact hnormal
        · exact normal_mulTo h (hnormal.moderate h) ha hr

/-! ## Exponents of more than twenty digits -/

/-- A number below a power of ten is below the power of sixteen of the same exponent. -/
private theorem lt_of_two_pow_lt {n : ℕ} (h : (2 : ℤ) ^ n < 10 ^ p) : n < 4 * p := by
  have hsixteen : (10 : ℤ) ^ p ≤ 2 ^ (4 * p) := by
    rw [pow_mul]
    exact pow_le_pow_left₀ (by norm_num) (by norm_num) p
  exact (pow_lt_pow_iff_right₀ (by norm_num)).1 (h.trans_le hsixteen)

/-- A coefficient without zeros at its end whose huge power is representable is a unit: of any
other the digits grow too many. -/
private theorem abs_eq_one_of_representable_pow {c e : ℤ} {n : ℕ} (hp : p ≤ 2 ^ 30)
    (hc : ¬ (10 : ℤ) ∣ c) (hn : 10 ^ 20 ≤ n)
    (h : Representable p (((c ^ n : ℤ) : ℚ) * 10 ^ e)) : |c| = 1 := by
  have hc0 : c ≠ 0 := by
    rintro rfl
    exact hc (dvd_zero 10)
  by_contra hne
  have htwo : 2 ≤ |c| := by
    have := Int.one_le_abs hc0
    omega
  have hsmall := abs_lt_of_representable (not_ten_dvd_pow hc n) h
  rw [abs_pow] at hsmall
  have hlt := lt_of_two_pow_lt ((pow_le_pow_left₀ (by norm_num) htwo n).trans_lt hsmall)
  omega

/-- Only one and minus one have huge powers that fit: what is left besides a unit coefficient is a
power of ten, and its powers leave the range. -/
theorem abs_eq_one_of_fits_pow (h : Manageable p m) (ha : a.coefficient ≠ 0) {n : ℕ}
    (hn : 10 ^ 20 ≤ n) (hfits : Fits p m (a.value ^ n)) : |a.value| = 1 := by
  obtain ⟨-, hp, -, hm⟩ := h
  unfold largestMaxExponent at hm
  obtain ⟨c, e, hc, hvalue⟩ := exists_value_eq ha
  have hpow := value_pow hvalue n
  have hone := abs_eq_one_of_representable_pow hp hc hn (hpow ▸ hfits.representable)
  have hlog : Int.log 10 |a.value ^ n| = e * n := by
    rw [hpow, abs_mul, abs_of_pos (ten_zpow_pos _), ← Int.cast_abs, abs_pow, hone, one_pow,
      Int.cast_one, one_mul]
    exact_mod_cast Int.log_zpow (R := ℚ) (b := 10) (by norm_num) (e * n)
  have hne : a.value ^ n ≠ 0 := pow_ne_zero n (by simpa using ha)
  obtain hzero | ⟨-, hlow, hhigh⟩ := hfits
  · exact absurd hzero hne
  · rw [hlog] at hlow hhigh
    -- a multiple of `n` other than zero lies outside the range
    have he : e = 0 := by
      rcases lt_trichotomy e 0 with hneg | hzero | hpos
      · nlinarith
      · exact hzero
      · nlinarith
    rw [hvalue, he, zpow_zero, mul_one, ← Int.cast_abs, hone, Int.cast_one]

/-- A whole exponent is odd when its value is; one that ends in zeros is even. -/
theorem isOdd_iff (hb : b.Moderate) {n : ℤ} (hn : b.value = n) : b.isOdd = true ↔ n % 2 = 1 := by
  unfold isOdd
  split
  · next hpos =>
    -- the zeros at the end make the number even
    refine ⟨fun hfalse => absurd hfalse (by simp), fun hodd => ?_⟩
    have heven : n = b.coefficient * 10 ^ b.exponent.toNat := by
      rw [value, ten_zpow_toNat hpos.le] at hn
      exact_mod_cast hn.symm
    have htwo : (2 : ℤ) ∣ n := by
      rw [heven]
      exact ((by norm_num : (2 : ℤ) ∣ 10).trans (dvd_pow_self 10 (by omega))).mul_left _
    omega
  · next hpos =>
    have hinteger : b.toInteger? = some n :=
      (toInteger?_eq_some_iff hb (by unfold largestPower; omega)).2 hn
    rw [hinteger]
    simp only [bne_iff_ne, ne_eq]
    omega

theorem compare_abs_one (ha : a.Moderate) :
    a.abs.compare .one = compare |a.value| 1 := by
  rw [ha.abs.compare_eq moderate_one, value_abs, value_one]

/-- One and minus one have their powers at once. -/
theorem powHuge_of_abs_eq_one (ha : a.Moderate) (hb : b.Moderate) {n : ℤ} (hn : b.value = n)
    (hone : |a.value| = 1) : ∃ r, powHuge a b = .ok r ∧ r.value = a.value ^ n := by
  have hodd := isOdd_iff hb hn
  unfold powHuge
  rw [compare_abs_one ha, compare_eq_iff_eq.2 hone]
  refine ⟨_, rfl, ?_⟩
  rcases eq_or_eq_neg_of_abs_eq hone with hvalue | hvalue
  · have hsign : a.isNegative = false := by
      rw [Bool.eq_false_iff, ne_eq, isNegative_iff, ← value_lt_zero_iff, hvalue]
      norm_num
    simp [hsign, hvalue]
  · have hsign : a.isNegative = true := by
      rw [isNegative_iff, ← value_lt_zero_iff, hvalue]
      norm_num
    rcases Int.even_or_odd n with heven | hn
    · have hfalse : b.isOdd = false := by
        rw [Bool.eq_false_iff, ne_eq, hodd]
        have := Int.even_iff.1 heven
        omega
      simp [hsign, hfalse, hvalue, heven.neg_one_zpow]
    · have htrue : b.isOdd = true := by
        rw [hodd]
        have := Int.odd_iff.1 hn
        omega
      simp [hsign, htrue, hvalue, hn.neg_one_zpow]

/-- The other bases have none that is not zero. -/
theorem abs_eq_one_of_powHuge (ha : a.Moderate) (hr : powHuge a b = .ok r) (hr0 : r.value ≠ 0) :
    |a.value| = 1 := by
  unfold powHuge at hr
  rw [compare_abs_one ha] at hr
  split at hr
  · next hone => exact compare_eq_iff_eq.1 hone
  all_goals cases hr
  all_goals exact absurd value_zero hr0

theorem normal_powHuge (h : Manageable p m) (hr : powHuge a b = .ok r) : r.Normal p m := by
  unfold powHuge at hr
  split at hr <;> cases hr
  · split
    · exact (normal_one h).neg
    · exact normal_one h
  · exact normal_zero h
  · exact normal_zero h

/-! ## Whole exponents -/

/-- An exponent that is worked off leaves room for the digits carried besides the result's. -/
theorem manageable_powDigits (limits : Limits) {n : ℤ} (hn : n.natAbs < 10 ^ 20) :
    Manageable (powDigits limits.precision n) limits.maxExponent := by
  have hp := limits.precision_le
  unfold largestPrecision at hp
  have hcount : digitCount n.natAbs ≤ 20 := (digitCount_le_iff (by norm_num)).2 hn
  have hwork : powDigits limits.precision n = limits.precision + digitCount n.natAbs + 2 := rfl
  exact ⟨by omega, by omega, limits.maxExponent_pos, limits.maxExponent_le⟩

theorem natAbs_lt_of_leading_lt (hb : b.leading < 20) {n : ℤ} (hn : b.value = n) :
    n.natAbs < 10 ^ 20 := by
  have hlt : |b.value| < 10 ^ (20 : ℤ) :=
    b.abs_value_lt.trans_le (ten_zpow_le_iff.2 (by omega))
  rw [hn, ← Int.cast_abs, Int.abs_eq_natAbs] at hlt
  exact_mod_cast hlt

/-- Exponents below `10 ^ 20` are worked off. -/
theorem powIntegral_eq (limits : Limits) (hb : b.Moderate) (hb0 : b.coefficient ≠ 0) {n : ℤ}
    (hn : b.value = n) :
    powIntegral limits a b = if n.natAbs < 10 ^ 20 then powInt limits a n else powHuge a b := by
  unfold powIntegral
  rw [adjustedExponent_eq hb.roomy]
  split
  · next hhuge =>
    have hlarge : 10 ^ 20 ≤ n.natAbs := by
      have hle : (10 : ℚ) ^ (20 : ℤ) ≤ |b.value| :=
        (ten_zpow_le_iff.2 hhuge).trans (zpow_leading_le hb0)
      rw [hn, ← Int.cast_abs, Int.abs_eq_natAbs] at hle
      exact_mod_cast hle
    rw [if_neg (not_lt.2 hlarge)]
  · next hsmall =>
    have hinteger : b.toInteger? = some n := by
      have := b.digits_pos
      unfold leading at hsmall
      exact (toInteger?_eq_some_iff hb (by unfold largestPower; omega)).2 hn
    rw [if_pos (natAbs_lt_of_leading_lt (not_le.1 hsmall) hn), hinteger]

/-- A representable power with a whole exponent is found exactly. -/
theorem powIntegral_of_fits (limits : Limits) (ha : a.Moderate) (hb : b.Moderate)
    (ha0 : a.coefficient ≠ 0) (hb0 : b.coefficient ≠ 0) {n : ℕ} (hn : b.value = n)
    (hfits : Fits limits.precision limits.maxExponent (a.value ^ n)) :
    ∃ r, powIntegral limits a b = .ok r ∧ r.value = a.value ^ n := by
  have h := limits.manageable
  have hn' : b.value = (n : ℤ) := by exact_mod_cast hn
  rw [powIntegral_eq limits hb hb0 hn', Int.natAbs_natCast]
  split
  · next hsmall =>
    have hwork := manageable_powDigits limits (n := n) hsmall
    have hwider : limits.precision ≤ powDigits limits.precision n := by
      unfold powDigits
      omega
    obtain ⟨powered, hok, hnormal, hvalue⟩ := powBySquaring_of_fits hwork ha n fun k hk =>
      Fits.mono (fits_pow_of_le h.maxExponent_pos.le ha0 hfits hk) hwider
    obtain ⟨r, hr, hrvalue⟩ := roundTo_of_fits h (hnormal.moderate hwork).roomy (hvalue ▸ hfits)
    refine ⟨r, ?_, hrvalue.trans hvalue⟩
    unfold powInt
    dsimp only
    rw [if_pos (by omega), Int.natAbs_natCast, hok]
    exact hr
  · next hhuge =>
    have hpower := powHuge_of_abs_eq_one ha hb hn'
      (abs_eq_one_of_fits_pow h ha0 (not_lt.1 hhuge) hfits)
    rwa [zpow_natCast] at hpower

theorem normal_powInt (limits : Limits) (ha : a.Moderate) {n : ℤ}
    (hwork : Manageable (powDigits limits.precision n) limits.maxExponent)
    (hr : powInt limits a n = .ok r) : r.Normal limits.precision limits.maxExponent := by
  have h := limits.manageable
  unfold powInt at hr
  dsimp only at hr
  split at hr
  · obtain ⟨powered, hpowered, hr⟩ := Except.bind_eq_ok_iff.1 hr
    have hmoderate := (normal_powBySquaring hwork ha _ hpowered).moderate hwork
    exact normal_of_roundTo h hmoderate.roomy hr
  · split at hr
    · cases hr
      exact normal_zero h
    · cases hr
    · next powered hpowered =>
      have hmoderate := (normal_powBySquaring hwork ha _ hpowered).moderate hwork
      split at hr
      · cases hr
      · next hzero =>
        have hquotient := roundsOnce_div limits moderate_one hmoderate (by simpa using hzero)
        exact hquotient.rounds.normal h hr

/-- An exponent that is worked off has at most twenty digits. -/
theorem natAbs_lt_of_toInteger? (hb : b.Moderate) (hsmall : b.adjustedExponent < 20) {n : ℤ}
    (hinteger : b.toInteger? = some n) : n.natAbs < 10 ^ 20 := by
  rw [adjustedExponent_eq hb.roomy] at hsmall
  have hexponent : b.exponent ≤ largestPower := by
    have hdigits := b.digits_pos
    unfold leading at hsmall
    unfold largestPower
    omega
  exact natAbs_lt_of_leading_lt hsmall ((toInteger?_eq_some_iff hb hexponent).1 hinteger)

theorem normal_powIntegral (limits : Limits) (ha : a.Moderate) (hb : b.Moderate)
    (hr : powIntegral limits a b = .ok r) : r.Normal limits.precision limits.maxExponent := by
  unfold powIntegral at hr
  split at hr
  · exact normal_powHuge limits.manageable hr
  · next hsmall =>
    split at hr
    · next n hinteger =>
      have hn := natAbs_lt_of_toInteger? hb (not_le.1 hsmall) hinteger
      exact normal_powInt limits ha (manageable_powDigits limits hn) hr
    · cases hr

end Decimal

end Reckon
