import Mathlib.Logic.Function.Iterate
import Reckon.Proofs.Decimal.Fractional

/-!
# How long the series run

The sums of `Reckon.Series` are given a number of terms that they may have at most.  Here they are
loops without such a bound, which make pass after pass until the term is zero: `atanhPass` and
`expPass` are the passes, `Progress` is what one hands to the next, and `EndsAfter` counts them.  A
loop that ends within the number of terms has the sum that the definition has
(`atanhFrom_eq_of_endsAfter`, `expFrom_eq_of_endsAfter`).

Rounding could keep a loop from its end: a term of one unit is rounded to one unit again as long as
more than half of it is left.  But the terms that occur lose more, and come down to three tenths and
the half unit of the rounding.  So two passes take a digit away, and one more takes a term of one
unit to zero (`eq_zero_of_shrinking`).  The terms of the inverse hyperbolic tangent shrink like that
from the first pass on, if the argument is at most one half, and those of the exponential from the
fifth on, if it is at most three halves.  So both loops are finished in time (`atanh_endsInTime`,
`exp_endsInTime`).
-/

namespace Reckon.Series

/-! ## Loops -/

/-- What a pass of a loop hands to the next one. -/
structure Progress where
  /-- The last power of the argument, or the last term. -/
  term : ℤ
  /-- The number that comes next as a divisor. -/
  position : ℕ
  /-- The terms that have been added up. -/
  sum : ℤ

/-- The loop that makes passes as long as the term is not zero makes this many. -/
structure EndsAfter (pass : Progress → Progress) (start : Progress) (passes : ℕ) : Prop where
  running : ∀ k < passes, (pass^[k] start).term ≠ 0
  ended : (pass^[passes] start).term = 0

/-- The loop ends by itself with the sum `result`, after at most `2 * places + 10` passes, and its
position never leaves thirty-two bits. -/
def EndsInTime (places : ℕ) (pass : Progress → Progress) (start : Progress) (result : ℤ) : Prop :=
  ∃ passes ≤ 2 * places + 10, EndsAfter pass start passes ∧ (pass^[passes] start).sum = result ∧
    ∀ k ≤ passes, (pass^[k] start).position < 2 ^ 32

section Loops

variable {pass : Progress → Progress} {start : Progress} {n : ℕ}

theorem EndsAfter.tail (h : EndsAfter pass start (n + 1)) : EndsAfter pass (pass start) n :=
  ⟨fun k hk => h.running (k + 1) (by omega), h.ended⟩

/-- A loop that has no term at some time has ended then or before. -/
theorem exists_endsAfter_le (h : (pass^[n] start).term = 0) :
    ∃ passes ≤ n, EndsAfter pass start passes := by
  have hexists : ∃ k, (pass^[k] start).term = 0 := ⟨n, h⟩
  exact ⟨Nat.find hexists, Nat.find_min' hexists h, fun k hk => Nat.find_min hexists hk,
    Nat.find_spec hexists⟩

/-- A loop is finished in time if it has no term in time, with a position that moves on by at most
two in a pass. -/
private theorem endsInTime_of_term_eq_zero {places : ℕ} {result : ℤ} (hplaces : places ≤ 2 ^ 20)
    (hn : n ≤ 2 * places + 10) (hzero : (pass^[n] start).term = 0)
    (hsum : ∀ passes ≤ 2 * places + 10, EndsAfter pass start passes →
      (pass^[passes] start).sum = result)
    (hposition : ∀ k, (pass^[k] start).position ≤ 2 * k + 1) :
    EndsInTime places pass start result := by
  obtain ⟨passes, hle, hends⟩ := exists_endsAfter_le hzero
  refine ⟨passes, by omega, hends, hsum passes (by omega) hends, fun k hk => ?_⟩
  have := hposition k
  omega

end Loops

/-! ## Terms that shrink -/

/-- Rounded, a quotient of at most three tenths of a term is at most half a unit more. -/
theorem ten_mul_abs_divHalfEven_le {m n t : ℤ} (hm : 0 < m) (h : 10 * |n| ≤ 3 * (m * |t|)) :
    10 * |divHalfEven n m| ≤ 3 * |t| + 5 := by
  have hnear := two_mul_mul_abs_divHalfEven_le hm n
  by_contra hlarge
  have hscaled : m * (3 * |t| + 6) ≤ m * (10 * |divHalfEven n m|) :=
    mul_le_mul_of_nonneg_left (by omega) hm.le
  linarith

/-- Two passes take a digit of a shrinking term away. -/
theorem eq_zero_of_shrinking {t : ℕ → ℤ} (hshrink : ∀ j, 10 * |t (j + 1)| ≤ 3 * |t j| + 5) :
    ∀ k j, |t j| ≤ 10 ^ k → t (j + (2 * k + 1)) = 0 := by
  intro k
  induction k with
  | zero =>
      intro j hj
      have hlast := hshrink j
      have hnonneg := abs_nonneg (t (j + 1))
      rw [pow_zero] at hj
      exact abs_eq_zero.1 (show |t (j + 1)| = 0 by omega)
  | succ k ih =>
      intro j hj
      have hpow : (0 : ℤ) < 10 ^ k := by positivity
      have hfirst := hshrink j
      have hsecond : 10 * |t (j + 2)| ≤ 3 * |t (j + 1)| + 5 := hshrink (j + 1)
      rw [pow_succ] at hj
      have hrest := ih (j + 2) (by omega)
      rwa [show j + 2 + (2 * k + 1) = j + (2 * (k + 1) + 1) by ring] at hrest

variable {places : ℕ} {one square x z : ℤ}

/-! ## The inverse hyperbolic tangent -/

/-- A pass of the inverse hyperbolic tangent. -/
def atanhPass (one square : ℤ) (s : Progress) : Progress where
  term := divHalfEven (s.term * square) one
  position := s.position + 2
  sum := s.sum + s.term.tdiv s.position

/-- The sum of the inverse hyperbolic tangent is that of its loop. -/
theorem atanhFrom_eq_of_endsAfter {n terms : ℕ} {s : Progress}
    (h : EndsAfter (atanhPass one square) s n) (hn : n ≤ terms) :
    atanhFrom one square terms s.term s.position s.sum =
      ((atanhPass one square)^[n] s).sum := by
  induction n generalizing s terms with
  | zero =>
      have hzero : s.term = 0 := h.ended
      cases terms with
      | zero => rfl
      | succ terms => rw [atanhFrom, if_pos hzero, Function.iterate_zero, id]
  | succ n ih =>
      obtain ⟨terms, rfl⟩ : ∃ t, terms = t + 1 := ⟨terms - 1, by omega⟩
      have hrunning : s.term ≠ 0 := h.running 0 (by omega)
      rw [atanhFrom, if_neg hrunning]
      exact ih h.tail (by omega)

theorem atanhPass_iterate_position (one square : ℤ) (s : Progress) (k : ℕ) :
    ((atanhPass one square)^[k] s).position = s.position + 2 * k := by
  induction k with
  | zero => rfl
  | succ k ih =>
      rw [Function.iterate_succ_apply']
      change ((atanhPass one square)^[k] s).position + 2 = _
      omega

/-- A power shrinks when the square of the argument is at most three tenths. -/
private theorem atanhPass_shrinks (hone : 0 < one) (hsquare : 10 * |square| ≤ 3 * one)
    (s : Progress) : 10 * |(atanhPass one square s).term| ≤ 3 * |s.term| + 5 := by
  apply ten_mul_abs_divHalfEven_le hone
  calc 10 * |s.term * square| = 10 * |square| * |s.term| := by rw [abs_mul]; ring
    _ ≤ 3 * one * |s.term| := mul_le_mul_of_nonneg_right hsquare (abs_nonneg _)
    _ = 3 * (one * |s.term|) := mul_assoc _ _ _

/-- The square of one half is a quarter, and rounded still no more than three tenths. -/
private theorem ten_mul_abs_square_le (hone : 10 ≤ one) (hz : 2 * |z| ≤ one) :
    10 * |divHalfEven (z * z) one| ≤ 3 * one := by
  have hrounded := two_mul_mul_abs_divHalfEven_le (show 0 < one by omega) (z * z)
  have hquarter : 2 * |z| * (2 * |z|) ≤ one * one :=
    mul_le_mul hz hz (by positivity) (by omega)
  rw [abs_mul] at hrounded
  by_contra hlarge
  have hscaled : one * (3 * one + 1) ≤ one * (10 * |divHalfEven (z * z) one|) :=
    mul_le_mul_of_nonneg_left (by omega) (by omega)
  have hten : 10 * one ≤ one * one := mul_le_mul_of_nonneg_right hone (by omega)
  linarith

/-- The loop of the inverse hyperbolic tangent is finished in time, with the sum that the
definition has. -/
theorem atanh_endsInTime (hpos : 0 < places) (hplaces : places ≤ 2 ^ 20)
    (hz : 2 * |z| ≤ unit places) :
    EndsInTime places (atanhPass (unit places) (divHalfEven (z * z) (unit places))) ⟨z, 1, 0⟩
      (atanh places z) := by
  have hone := unit_pos places
  have hunit := unit_eq hplaces
  have hsquare := ten_mul_abs_square_le (ten_le_unit hpos hplaces) hz
  unfold atanh
  dsimp only
  generalize divHalfEven (z * z) (unit places) = square at hsquare ⊢
  have hzero : ((atanhPass (unit places) square)^[0 + (2 * places + 1)] ⟨z, 1, 0⟩).term = 0 := by
    refine eq_zero_of_shrinking
      (t := fun j => ((atanhPass (unit places) square)^[j] ⟨z, 1, 0⟩).term) (fun j => ?_)
      places 0 ?_
    · rw [Function.iterate_succ_apply']
      exact atanhPass_shrinks hone hsquare _
    · rw [← hunit]
      change |z| ≤ unit places
      linarith [abs_nonneg z]
  refine endsInTime_of_term_eq_zero hplaces (by omega) hzero (fun passes hle hends => ?_)
    (fun k => ?_)
  · exact (atanhFrom_eq_of_endsAfter hends hle).symm
  · rw [atanhPass_iterate_position]
    dsimp only
    omega

/-! ## The exponential -/

/-- A pass of the exponential; one that finds no term to add leaves the position where it is. -/
def expPass (one x : ℤ) (s : Progress) : Progress :=
  let next := divHalfEven (s.term * x) (one * s.position)
  if next = 0 then { s with term := 0 } else ⟨next, s.position + 1, s.sum + next⟩

theorem expPass_of_ne_zero {s : Progress}
    (h : divHalfEven (s.term * x) (one * s.position) ≠ 0) :
    expPass one x s = ⟨divHalfEven (s.term * x) (one * s.position), s.position + 1,
      s.sum + divHalfEven (s.term * x) (one * s.position)⟩ := if_neg h

@[simp] theorem expPass_term (one x : ℤ) (s : Progress) :
    (expPass one x s).term = divHalfEven (s.term * x) (one * s.position) := by
  unfold expPass
  dsimp only
  split
  · next hzero => exact hzero.symm
  · rfl

/-- The sum of the exponential is that of its loop, which makes at least one pass. -/
theorem expFrom_eq_of_endsAfter {n terms : ℕ} {s : Progress}
    (h : EndsAfter (expPass one x) s (n + 1)) (hn : n < terms) :
    expFrom one x terms s.term s.position s.sum = ((expPass one x)^[n + 1] s).sum := by
  induction n generalizing s terms with
  | zero =>
      obtain ⟨terms, rfl⟩ : ∃ t, terms = t + 1 := ⟨terms - 1, by omega⟩
      have hzero : divHalfEven (s.term * x) (one * s.position) = 0 := by
        rw [← expPass_term]
        exact h.ended
      rw [expFrom, if_pos hzero, zero_add, Function.iterate_one, expPass, if_pos hzero]
  | succ n ih =>
      obtain ⟨terms, rfl⟩ : ∃ t, terms = t + 1 := ⟨terms - 1, by omega⟩
      have hrunning : divHalfEven (s.term * x) (one * s.position) ≠ 0 := by
        rw [← expPass_term]
        exact h.running 1 (by omega)
      have hrest := ih h.tail (show n < terms by omega)
      rw [expPass_of_ne_zero hrunning] at hrest
      rw [expFrom, if_neg hrunning, Function.iterate_succ_apply, expPass_of_ne_zero hrunning]
      exact hrest

/-- After `k` passes the position has counted them, but for a pass that found no term. -/
private structure Counts (k : ℕ) (s : Progress) : Prop where
  position_pos : 0 < s.position
  position_le : s.position ≤ k + 1
  position_eq : s.term ≠ 0 → s.position = k + 1

private theorem counts_expPass (hone : 0 < one) {k : ℕ} {s : Progress} (h : Counts k s) :
    Counts (k + 1) (expPass one x s) := by
  obtain ⟨hpos, hle, hcounted⟩ := h
  by_cases hnext : divHalfEven (s.term * x) (one * s.position) = 0
  · rw [expPass, if_pos hnext]
    exact ⟨hpos, by dsimp only; omega, fun hterm => absurd rfl hterm⟩
  · -- a term that is not zero comes from one that is not
    have hterm : s.term ≠ 0 := by
      rintro hzero
      rw [hzero, zero_mul] at hnext
      exact hnext (divHalfEven_zero (mul_pos hone (by exact_mod_cast hpos)))
    rw [expPass_of_ne_zero hnext]
    exact ⟨Nat.succ_pos _, Nat.succ_le_succ hle, fun _ => congrArg (· + 1) (hcounted hterm)⟩

private theorem counts_iterate_expPass (hone : 0 < one) (x : ℤ) (k : ℕ) :
    Counts k ((expPass one x)^[k] ⟨one, 1, one⟩) := by
  induction k with
  | zero => exact ⟨one_pos, le_rfl, fun _ => rfl⟩
  | succ k ih =>
      rw [Function.iterate_succ_apply']
      exact counts_expPass hone ih

section Terms

variable {k : ℕ} {s : Progress}

/-- The argument is at most three halves, and the position divides what it makes of a term. -/
private theorem two_mul_abs_term_mul_le (hx : 2 * |x| ≤ 3 * one) (hs : Counts k s) :
    2 * ((k + 1 : ℕ) * |s.term * x|) ≤ 3 * (one * s.position * |s.term|) := by
  by_cases hterm : s.term = 0
  · simp [hterm]
  · rw [hs.position_eq hterm, abs_mul]
    have hscaled := mul_le_mul_of_nonneg_left hx
      (by positivity : 0 ≤ ((k + 1 : ℕ) : ℤ) * |s.term|)
    linarith

/-- From the second pass on no term is larger than the one before it. -/
private theorem abs_expPass_term_le (hone : 0 < one) (hx : 2 * |x| ≤ 3 * one) (hs : Counts k s)
    (hk : 1 ≤ k) : |(expPass one x s).term| ≤ |s.term| := by
  have hdivisor : 0 < one * s.position := mul_pos hone (by exact_mod_cast hs.position_pos)
  have hproduct := two_mul_abs_term_mul_le hx hs
  have htwo : (2 : ℤ) * |s.term * x| ≤ (k + 1 : ℕ) * |s.term * x| :=
    mul_le_mul_of_nonneg_right (by omega) (abs_nonneg _)
  rw [expPass_term]
  apply abs_divHalfEven_le hdivisor
  have hnonneg : 0 ≤ one * s.position * |s.term| := mul_nonneg hdivisor.le (abs_nonneg _)
  linarith

/-- From the fifth pass on the terms shrink. -/
private theorem expPass_shrinks (hone : 0 < one) (hx : 2 * |x| ≤ 3 * one) (hs : Counts k s)
    (hk : 4 ≤ k) : 10 * |(expPass one x s).term| ≤ 3 * |s.term| + 5 := by
  have hproduct := two_mul_abs_term_mul_le hx hs
  have hfive : (5 : ℤ) * |s.term * x| ≤ (k + 1 : ℕ) * |s.term * x| :=
    mul_le_mul_of_nonneg_right (by omega) (abs_nonneg _)
  rw [expPass_term]
  exact ten_mul_abs_divHalfEven_le (mul_pos hone (by exact_mod_cast hs.position_pos))
    (by linarith)

end Terms

/-- No term is larger than two. -/
private theorem abs_iterate_expPass_term_le (hone : 0 < one) (hx : 2 * |x| ≤ 3 * one) (k : ℕ) :
    |((expPass one x)^[k] ⟨one, 1, one⟩).term| ≤ 2 * one := by
  induction k with
  | zero =>
      change |one| ≤ 2 * one
      rw [abs_of_pos hone]
      omega
  | succ k ih =>
      have hcounts := counts_iterate_expPass hone x k
      rw [Function.iterate_succ_apply']
      rcases Nat.eq_zero_or_pos k with rfl | hk
      · -- the first term is the argument
        rw [Function.iterate_zero, id, expPass_term, Nat.cast_one, mul_one, divHalfEven_mul hone]
        omega
      · exact (abs_expPass_term_le hone hx hcounts hk).trans ih

/-- The loop of the exponential is finished in time, with the sum that the definition has. -/
theorem exp_endsInTime (hplaces : places ≤ 2 ^ 20) (hx : 2 * |x| ≤ 3 * unit places) :
    EndsInTime places (expPass (unit places) x) ⟨unit places, 1, unit places⟩ (exp places x) := by
  have hone := unit_pos places
  have hunit := unit_eq hplaces
  have hzero : ((expPass (unit places) x)^[0 + (2 * (places + 1) + 1) + 4]
      ⟨unit places, 1, unit places⟩).term = 0 := by
    refine eq_zero_of_shrinking (t := fun j =>
      ((expPass (unit places) x)^[j + 4] ⟨unit places, 1, unit places⟩).term) (fun j => ?_)
      (places + 1) 0 ?_
    · have hcounts := counts_iterate_expPass hone x (j + 4)
      rw [show j + 1 + 4 = j + 4 + 1 by ring, Function.iterate_succ_apply']
      exact expPass_shrinks hone hx hcounts (by omega)
    · rw [pow_succ, ← hunit]
      linarith [abs_iterate_expPass_term_le hone hx (0 + 4)]
  refine endsInTime_of_term_eq_zero hplaces (by omega) hzero (fun passes hle hends => ?_)
    (fun k => ?_)
  · -- one, which it begins with, is a term
    obtain ⟨n, rfl⟩ : ∃ n, passes = n + 1 := by
      refine ⟨passes - 1, (Nat.succ_pred ?_).symm⟩
      rintro rfl
      exact hone.ne' hends.ended
    exact (expFrom_eq_of_endsAfter hends hle).symm
  · have hle := (counts_iterate_expPass hone x k).position_le
    omega

end Reckon.Series
