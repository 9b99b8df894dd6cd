import Reckon.Expr.Eval
import Reckon.Proofs.Decimal.Whole

/-!
# The operand of a factorial

The factorial of a decimal is that of the count which the decimal stands for, and how the decimal
is written decides whether that count is found in one case only.  The leading digit is looked at
before the number: with a leading digit beyond the twentieth place a number other than zero is too
large for sixty-four bits (`leading_le_of_value_eq`), so nothing is lost.  A zero has no leading
digit, and its exponent is looked at in its place.  So a zero with an exponent above nineteen, as
arithmetic with large numbers may leave it behind, is not counted, and has no factorial
(`zero_above_twenty_places_refused`).  Every other decimal is judged by its value
(`factorial_operand_judged_by_value`).
-/

namespace Reckon

variable {limits : Limits} {d : Decimal} {n : ℕ}

namespace Decimal

/-- Sixty-four bits make at most twenty digits. -/
theorem leading_le_of_value_eq (hn : n < 2 ^ 64) (hn0 : n ≠ 0) (hvalue : d.value = n) :
    d.leading ≤ 19 := by
  have hne : d.coefficient ≠ 0 := by
    rw [ne_eq, ← value_eq_zero_iff, hvalue]
    exact_mod_cast hn0
  have hsize : (10 : ℚ) ^ d.leading < 10 ^ (20 : ℤ) := by
    calc (10 : ℚ) ^ d.leading ≤ |d.value| := zpow_leading_le hne
      _ = n := by rw [hvalue, Nat.abs_cast]
      _ < (2 ^ 64 : ℕ) := by exact_mod_cast hn
      _ < 10 ^ (20 : ℤ) := by norm_num
  have := ten_zpow_lt_iff.1 hsize
  omega

/-- A count is found by its value, except that of a zero far above the point. -/
theorem toCount?_eq_some_iff (hd : d.Moderate) (hn : n < 2 ^ 64) :
    d.toCount? = some n ↔ d.value = n ∧ (n = 0 → d.exponent ≤ 19) := by
  have hpos := d.digits_pos
  unfold toCount?
  rw [adjustedExponent_eq hd.roomy]
  split
  · next hhigh =>
    refine iff_of_false (by simp) ?_
    rintro ⟨hvalue, hzero⟩
    by_cases hn0 : n = 0
    · have hdigits : d.digits = 1 :=
        digits_eq_one_of_zero (value_eq_zero_iff.1 (by rw [hvalue, hn0, Nat.cast_zero]))
      have := hzero hn0
      unfold leading at hhigh
      omega
    · have := leading_le_of_value_eq hn hn0 hvalue
      omega
  · next hlow =>
    have hexponent : d.exponent ≤ 19 := by
      unfold leading at hlow
      omega
    have hwhole : ∀ k : ℤ, d.toInteger? = some k ↔ d.value = k := fun k =>
      toInteger?_eq_some_iff hd (by unfold largestPower; omega)
    rw [and_iff_left fun _ => hexponent]
    constructor
    · intro h
      split at h
      · next k hk =>
        split at h
        · next hrange =>
          obtain rfl := Option.some.inj h
          rw [(hwhole k).1 hk, ← Int.cast_natCast, Int.toNat_of_nonneg hrange.1]
        · cases h
      · cases h
    · intro hvalue
      have hk : d.toInteger? = some (n : ℤ) := (hwhole n).2 (by rw [hvalue, Int.cast_natCast])
      rw [hk]
      exact (if_pos ⟨by omega, by omega⟩).trans (by rw [Int.toNat_natCast])

end Decimal

open Decimal

namespace Operator

/-- Where the count of the operand is found, its factorial is the result. -/
theorem applyUnary_factorial (hd : d.Moderate) (hvalue : d.value = n)
    (hcount : d.toCount? = some n) :
    Operator.factorial.applyUnary limits d =
      (Decimal.factorial limits n).mapError fun _ => .overflow .factorial := by
  have hnegative : ¬d.isNegative = true := by
    rw [isNegative_iff, ← value_lt_zero_iff, hvalue, not_lt]
    exact Nat.cast_nonneg n
  have hwhole : d.isInteger = true := (isInteger_iff hd).2 ⟨n, by rw [hvalue, Int.cast_natCast]⟩
  show applyFactorial limits .factorial d = _
  unfold applyFactorial
  rw [if_neg hnegative, hwhole, if_neg (by simp), hcount]

/-- Whether an operand is a count, and what its factorial is, does not depend on how the operand is
written, except that a zero must not have an exponent above nineteen. -/
theorem factorial_operand_judged_by_value (limits : Limits) (hd : d.Moderate) (hn : n < 2 ^ 64) :
    (d.toCount? = some n ↔ d.value = n ∧ (n = 0 → d.exponent ≤ 19)) ∧
      (d.value = n → (n = 0 → d.exponent ≤ 19) →
        Operator.factorial.applyUnary limits d =
          (Decimal.factorial limits n).mapError fun _ => .overflow .factorial) := by
  have hcount := toCount?_eq_some_iff hd hn
  exact ⟨hcount, fun hvalue hexponent =>
    applyUnary_factorial hd hvalue (hcount.2 ⟨hvalue, hexponent⟩)⟩

/-- Four is counted however many zeros follow it, before the point or behind it. -/
theorem four_is_counted :
    ((⟨4000, -3⟩ : Decimal).Moderate ∧ 4 < 2 ^ 64 ∧ (⟨4000, -3⟩ : Decimal).value = (4 : ℕ)) ∧
      (⟨4000, -3⟩ : Decimal).toCount? = some 4 ∧
      Operator.factorial.applyUnary .default ⟨4000, -3⟩ = .ok ⟨24, 0⟩ := by
  have hd : (⟨4000, -3⟩ : Decimal).Moderate := ⟨by decide, by decide, by decide⟩
  have hvalue : (⟨4000, -3⟩ : Decimal).value = (4 : ℕ) := by norm_num [value]
  obtain ⟨hcount, hresult⟩ := factorial_operand_judged_by_value .default hd
    (show 4 < 2 ^ 64 by norm_num)
  refine ⟨⟨hd, by norm_num, hvalue⟩, hcount.2 ⟨hvalue, by norm_num⟩, ?_⟩
  rw [hresult hvalue (by norm_num)]
  decide +kernel

/-- A zero with the exponent thirty is not counted and has no factorial, though the factorial of
zero is one. -/
theorem zero_above_twenty_places_refused :
    (⟨0, 30⟩ : Decimal).Moderate ∧ (⟨0, 30⟩ : Decimal).value = (0 : ℕ) ∧
      (⟨0, 30⟩ : Decimal).toCount? = none ∧
      Decimal.factorial .default 0 = .ok .one ∧
      Operator.factorial.applyUnary .default ⟨0, 30⟩ = .error (.overflow .factorial) :=
  ⟨⟨by decide, by decide, by decide⟩, by simp [value], by decide, by decide, by decide⟩

end Operator

end Reckon
