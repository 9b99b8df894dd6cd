import Mathlib.Data.Rat.Floor
import Mathlib.Tactic.FieldSimp
import Reckon.Proofs.Integer

/-!
# Rounding to the nearest integer

`nearestEven x` is the integer nearest to `x`, of two equally near ones the even one
(`nearestEven_eq_iff`).  For a quotient it is what `divHalfEven` finds
(`divHalfEven_eq_nearestEven`), in whatever terms the quotient is written.

What a rounding depends on is less than the number itself: only on which side of each half-way
point it lies.  `SameSide u x y` says that no multiple of `u` tells `x` and `y` apart.  Two numbers
that halves do not tell apart are rounded alike (`SameSide.nearestEven_eq`).
-/

namespace Reckon

variable {x y z : ℚ} {k n : ℤ}

/-! ## The nearest integer -/

/-- The integer nearest to a number, of two equally near ones the even one. -/
def nearestEven (x : ℚ) : ℤ :=
  if 2 * Int.fract x < 1 ∨ 2 * Int.fract x = 1 ∧ ⌊x⌋ % 2 = 0 then ⌊x⌋ else ⌊x⌋ + 1

/-- The integer is less than one half away from the number, or it is even and one half away. -/
def IsNearest (x : ℚ) (k : ℤ) : Prop :=
  2 * |x - k| < 1 ∨ 2 * |x - k| = 1 ∧ k % 2 = 0

theorem isNearest_nearestEven (x : ℚ) : IsNearest x (nearestEven x) := by
  have hlow := Int.fract_nonneg x
  have hhigh := Int.fract_lt_one x
  have hfloor : |x - ⌊x⌋| = Int.fract x := abs_of_nonneg hlow
  have hnext : |x - (⌊x⌋ + 1 : ℤ)| = 1 - Int.fract x := by
    rw [abs_of_nonpos] <;> push_cast <;> linarith [Int.floor_add_fract x]
  unfold nearestEven IsNearest
  split
  · next h => rwa [hfloor]
  · next h =>
    rw [hnext]
    rcases lt_trichotomy (2 * Int.fract x) 1 with hlt | heq | hgt
    · exact absurd (Or.inl hlt) h
    · have hodd : ⌊x⌋ % 2 ≠ 0 := fun heven => h (Or.inr ⟨heq, heven⟩)
      exact Or.inr ⟨by linarith, by omega⟩
    · exact Or.inl (by linarith)

/-- No number has two nearest integers: of two that are equally near only one is even. -/
theorem IsNearest.unique (hk : IsNearest x k) (hn : IsNearest x n) : k = n := by
  have htriangle : |(k : ℚ) - n| ≤ |x - k| + |x - n| := by
    rw [abs_sub_comm x k]
    exact abs_sub_le (k : ℚ) x n
  by_contra hne
  have hapart : (1 : ℚ) ≤ |(k : ℚ) - n| := by
    exact_mod_cast Int.one_le_abs (sub_ne_zero.2 hne)
  rcases hk with hk | ⟨hk, hkeven⟩
  · rcases hn with hn | ⟨hn, -⟩ <;> linarith
  · rcases hn with hn | ⟨hn, hneven⟩
    · linarith
    · -- both are one half away, so they are neighbours
      have hclose : |k - n| ≤ 1 := by
        have : |(k : ℚ) - n| ≤ 1 := by linarith
        exact_mod_cast this
      rw [abs_le] at hclose
      omega

theorem nearestEven_eq_iff : nearestEven x = k ↔ IsNearest x k := by
  constructor
  · rintro rfl
    exact isNearest_nearestEven x
  · intro h
    exact (isNearest_nearestEven x).unique h

@[simp] theorem nearestEven_intCast (n : ℤ) : nearestEven n = n := by
  rw [nearestEven_eq_iff]
  left
  simp

/-- The nearest integer is at most one half away. -/
theorem two_mul_abs_sub_nearestEven_le (x : ℚ) : 2 * |x - nearestEven x| ≤ 1 := by
  rcases isNearest_nearestEven x with hlt | ⟨heq, -⟩ <;> linarith

/-- An integer above the number stays above the rounded one. -/
theorem nearestEven_le {x : ℚ} {k : ℤ} (h : x ≤ k) : nearestEven x ≤ k := by
  have hnear := two_mul_abs_sub_nearestEven_le x
  have hlow := (abs_le.1 (show |x - nearestEven x| ≤ 1 / 2 by linarith)).1
  have hcast : (nearestEven x : ℚ) < k + 1 := by linarith
  have : nearestEven x < k + 1 := by exact_mod_cast hcast
  omega

theorem nearestEven_neg (x : ℚ) : nearestEven (-x) = -nearestEven x := by
  have hdistance : |-x - (-nearestEven x : ℤ)| = |x - nearestEven x| := by
    rw [← abs_neg]
    congr 1
    push_cast
    ring
  have heven : -nearestEven x % 2 = 0 ↔ nearestEven x % 2 = 0 := by omega
  rw [nearestEven_eq_iff, IsNearest, hdistance, heven]
  exact isNearest_nearestEven x

/-- An integer below the number stays below the rounded one. -/
theorem le_nearestEven {x : ℚ} {k : ℤ} (h : k ≤ x) : k ≤ nearestEven x := by
  have hopposite := nearestEven_le (x := -x) (k := -k) (by push_cast; linarith)
  rw [nearestEven_neg] at hopposite
  omega

/-- A number of small magnitude is rounded to zero. -/
theorem nearestEven_eq_zero (h : 2 * |x| < 1) : nearestEven x = 0 := by
  rw [nearestEven_eq_iff]
  left
  simpa using h

theorem divHalfEven_eq_nearestEven {m : ℤ} (hm : 0 < m) (n : ℤ) :
    divHalfEven n m = nearestEven (n / m) := by
  have hmpos : (0 : ℚ) < m := by exact_mod_cast hm
  have hdistance : |(n : ℚ) / m - divHalfEven n m| = (|n - m * divHalfEven n m| : ℤ) / m := by
    have hscaled : (n : ℚ) / m - divHalfEven n m = (n - m * divHalfEven n m) / m := by field_simp
    rw [hscaled, abs_div, abs_of_pos hmpos]
    push_cast
    rfl
  symm
  rw [nearestEven_eq_iff]
  unfold IsNearest
  rw [hdistance, ← mul_div_assoc, div_lt_one hmpos, div_eq_one_iff_eq hmpos.ne']
  exact_mod_cast divHalfEven_near hm n

/-! ## Numbers that multiples do not tell apart -/

/-- The two numbers lie on the same side of every multiple of `u`, or on it. -/
structure SameSide (u x y : ℚ) : Prop where
  le_iff : ∀ k : ℤ, x ≤ k * u ↔ y ≤ k * u
  ge_iff : ∀ k : ℤ, k * u ≤ x ↔ k * u ≤ y

namespace SameSide

variable {u : ℚ}

theorem trans (h : SameSide u x y) (h' : SameSide u y z) : SameSide u x z :=
  ⟨fun k => (h.le_iff k).trans (h'.le_iff k), fun k => (h.ge_iff k).trans (h'.ge_iff k)⟩

theorem lt_iff (h : SameSide u x y) (k : ℤ) : x < k * u ↔ y < k * u := by
  rw [← not_le, ← not_le, h.ge_iff]

theorem gt_iff (h : SameSide u x y) (k : ℤ) : k * u < x ↔ k * u < y := by
  rw [← not_le, ← not_le, h.le_iff]

/-- Between two neighbouring multiples no other one tells numbers apart. -/
theorem of_between (hu : 0 < u) (hx : k * u < x ∧ x < (k + 1) * u)
    (hy : k * u < y ∧ y < (k + 1) * u) : SameSide u x y := by
  have hmultiple : ∀ {z : ℚ}, k * u < z ∧ z < (k + 1) * u → ∀ n : ℤ,
      (z ≤ n * u ↔ k < n) ∧ (n * u ≤ z ↔ n ≤ k) := by
    rintro z ⟨hlow, hhigh⟩ n
    have habove : k < n → z < n * u := by
      intro h
      have hcast : (k : ℚ) + 1 ≤ n := by exact_mod_cast h
      exact hhigh.trans_le (mul_le_mul_of_nonneg_right hcast hu.le)
    have hbelow : n ≤ k → n * u < z := by
      intro h
      have hcast : (n : ℚ) ≤ k := by exact_mod_cast h
      exact (mul_le_mul_of_nonneg_right hcast hu.le).trans_lt hlow
    constructor
    · refine ⟨fun h => ?_, fun h => (habove h).le⟩
      by_contra hn
      exact absurd h (not_le.2 (hbelow (not_lt.1 hn)))
    · refine ⟨fun h => ?_, fun h => (hbelow h).le⟩
      by_contra hn
      exact absurd h (not_le.2 (habove (not_le.1 hn)))
  exact ⟨fun n => by rw [(hmultiple hx n).1, (hmultiple hy n).1],
    fun n => by rw [(hmultiple hx n).2, (hmultiple hy n).2]⟩

theorem neg (h : SameSide u x y) : SameSide u (-x) (-y) := by
  constructor
  · intro k
    have := h.ge_iff (-k)
    push_cast at this
    rw [neg_le, neg_le (a := y), ← neg_mul]
    exact this
  · intro k
    have := h.le_iff (-k)
    push_cast at this
    rw [le_neg, le_neg (b := y), ← neg_mul]
    exact this

theorem abs (h : SameSide u x y) : SameSide u |x| |y| := by
  have hsign := h.ge_iff 0
  rw [Int.cast_zero, zero_mul] at hsign
  rcases le_total 0 x with hx | hx
  · rwa [abs_of_nonneg hx, abs_of_nonneg (hsign.1 hx)]
  · have hy := h.le_iff 0
    rw [Int.cast_zero, zero_mul] at hy
    rw [abs_of_nonpos hx, abs_of_nonpos (hy.1 hx)]
    exact h.neg

/-- Numbers and multiples may be scaled together. -/
theorem mul_right {c : ℚ} (hc : 0 < c) (h : SameSide u x y) :
    SameSide (u * c) (x * c) (y * c) := by
  constructor
  · intro k
    rw [← mul_assoc, mul_le_mul_iff_left₀ hc, mul_le_mul_iff_left₀ hc]
    exact h.le_iff k
  · intro k
    rw [← mul_assoc, mul_le_mul_iff_left₀ hc, mul_le_mul_iff_left₀ hc]
    exact h.ge_iff k

/-- The multiples of a multiple are fewer. -/
theorem of_multiple {u' : ℚ} (h : SameSide u x y) (hu' : ∃ n : ℤ, u' = n * u) :
    SameSide u' x y := by
  obtain ⟨n, rfl⟩ := hu'
  have hmultiple : ∀ k : ℤ, (k : ℚ) * (n * u) = ((k * n : ℤ) : ℚ) * u := by
    intro k
    push_cast
    ring
  refine ⟨fun k => ?_, fun k => ?_⟩
  · rw [hmultiple]
    exact h.le_iff _
  · rw [hmultiple]
    exact h.ge_iff _

/-- A multiple is told apart from every other number. -/
theorem eq_of_multiple (h : SameSide u x y) (hx : ∃ n : ℤ, x = n * u) : x = y := by
  obtain ⟨n, rfl⟩ := hx
  exact le_antisymm ((h.ge_iff n).1 le_rfl) ((h.le_iff n).1 le_rfl)

theorem isNearest (h : SameSide (1 / 2) x y) (hx : IsNearest x k) : IsNearest y k := by
  have hlow := h.gt_iff (2 * k - 1)
  have hhigh := h.lt_iff (2 * k + 1)
  have hlow' := h.ge_iff (2 * k - 1)
  have hhigh' := h.le_iff (2 * k + 1)
  push_cast at hlow hhigh hlow' hhigh'
  rcases hx with hx | ⟨hx, heven⟩
  · obtain ⟨hleft, hright⟩ := abs_lt.1 (show |x - k| < 1 / 2 by linarith)
    left
    have := hlow.1 (by linarith)
    have := hhigh.1 (by linarith)
    have : |y - k| < 1 / 2 := abs_lt.2 ⟨by linarith, by linarith⟩
    linarith
  · -- one half away on either side is a multiple of one half
    obtain ⟨hleft, hright⟩ := abs_le.1 (show |x - k| ≤ 1 / 2 by linarith)
    have := hlow'.1 (by linarith)
    have := hhigh'.1 (by linarith)
    have hy : |y - k| ≤ 1 / 2 := abs_le.2 ⟨by linarith, by linarith⟩
    rcases hy.lt_or_eq with hlt | heq
    · exact Or.inl (by linarith)
    · exact Or.inr ⟨by linarith, heven⟩

/-- Numbers that halves do not tell apart are rounded alike. -/
theorem nearestEven_eq (h : SameSide (1 / 2) x y) : nearestEven x = nearestEven y :=
  ((nearestEven_eq_iff.2 (h.isNearest (isNearest_nearestEven x)))).symm

end SameSide

end Reckon
