import Mathlib.Data.Nat.Factorial.Basic
import Reckon.Proofs.Decimal.IdealExponent
import Reckon.Proofs.Decimal.RegisterEnds
import Reckon.Proofs.Expr.NormalForm

/-!
# The accuracy of factorials

A factorial is multiplied up from one, and each product is rounded before the next.  With `u` half a
unit of the last of the digits that are kept, relative to the least number that has them, every
rounding leaves a positive number between `1 - u` and `1 + u` times what it was
(`nearest_mem_of_pos`).  So after `n - 1` products the number that has been reached is the factorial
up to `n - 1` such factors, and it is the factorial itself, written as a whole number, as long as
the digits suffice for it (`NearFactorial`).

The products never fall below one, so none of them is lost below the range: one more factor gives
the next number of this kind, or overflows (`multiplied_mul`), and by induction on the factors so
does the whole fold (`multiplied_products`).
-/

namespace Reckon

variable {p : ℕ} {m : ℤ} {x : ℚ}

/-- Rounding moves a positive number by at most the factor `5 * 10 ^ (-p)`. -/
theorem nearest_mem_of_pos (hx : 0 < x) :
    x * (1 - 5 / 10 ^ p) ≤ nearest p x ∧ nearest p x ≤ x * (1 + 5 / 10 ^ p) := by
  have hten : (0 : ℚ) < 10 ^ p := by positivity
  have hmoved : |x - nearest p x| ≤ x * (5 / 10 ^ p) := by
    have h := abs_sub_nearest_mul_le p x
    rw [abs_of_pos hx, ← le_div_iff₀ hten] at h
    rwa [mul_div_assoc', mul_comm x]
  obtain ⟨hlow, hhigh⟩ := abs_le.1 hmoved
  constructor <;> linarith

/-- Rounding does not take a number below one. -/
theorem one_le_nearest (hp : 0 < p) (hx : 1 ≤ x) : 1 ≤ nearest p x := by
  have hpos : 0 < x := by linarith
  have hlog : 0 ≤ Int.log 10 |x| := le_log (by rwa [zpow_zero, abs_of_pos hpos])
  have hplace := zpow_log_le_abs_nearest hp hpos.ne'
  rw [abs_nearest, abs_of_pos hpos] at hplace
  rw [abs_of_pos hpos] at hlog
  exact le_trans (by rw [← zpow_zero (10 : ℚ)]; exact ten_zpow_le_iff.2 hlog) hplace

theorem five_div_pow_le_one (hp : 0 < p) : (5 : ℚ) / 10 ^ p ≤ 1 := by
  have hten : (10 : ℚ) ≤ 10 ^ p := le_self_pow₀ (by norm_num) hp.ne'
  rw [div_le_one (by positivity)]
  linarith

namespace Decimal

variable {limits : Limits} {a b r : Decimal} {n : ℕ}

/-! ## One product -/

/-- The number is the factorial of `n` but for `n - 1` roundings, and exactly the factorial while
the digits suffice for it. -/
structure NearFactorial (limits : Limits) (n : ℕ) (r : Decimal) : Prop where
  normal : r.Normal limits.precision limits.maxExponent
  one_le : 1 ≤ r.value
  le_value : n.factorial * (1 - 5 / 10 ^ limits.precision) ^ (n - 1) ≤ r.value
  value_le : r.value ≤ n.factorial * (1 + 5 / 10 ^ limits.precision) ^ (n - 1)
  eq_of_lt : n.factorial < 10 ^ limits.precision → r = ⟨n.factorial, 0⟩

/-- The products up to `n` have given a number near its factorial, or an overflow. -/
def Multiplied (limits : Limits) (n : ℕ) : Except ArithmeticFault Decimal → Prop
  | .ok r => NearFactorial limits n r
  | .error fault => fault = .overflow

/-- One is the factorial of zero and of one. -/
theorem nearFactorial_one (limits : Limits) (hn : n ≤ 1) : NearFactorial limits n .one := by
  have hfactorial : n.factorial = 1 := Nat.factorial_eq_one.2 hn
  have hnone : n - 1 = 0 := by omega
  refine ⟨normal_one limits.manageable, by simp, ?_, ?_, fun _ => ?_⟩
  · simp [hfactorial, hnone]
  · simp [hfactorial, hnone]
  · rw [hfactorial]
    rfl

/-- A product that the digits suffice for is the whole number that it stands for. -/
private theorem mul_eq_of_lt (ha : a.Moderate) (hb : b.Moderate)
    (hfew : |a.coefficient * b.coefficient| < 10 ^ limits.precision)
    (hr : mul limits a b = .ok r) (hr0 : r.value ≠ 0) :
    r = ⟨a.coefficient * b.coefficient, a.exponent + b.exponent⟩ := by
  have hdigits := (digits_le_iff (d := ⟨a.coefficient * b.coefficient, a.exponent + b.exponent⟩)
    limits.precision_pos).2 hfew
  rw [ha.storable.mul_eq_roundExactly limits hb.storable] at hr
  rw [eq_keepDigitsExactly_of_roundExactly hr (mt value_eq_zero_iff.2 hr0),
    keepDigitsExactly_of_digits_le hdigits]

/-- A result for a number that is not below one is not lost below the range. -/
theorem RoundsOnce.value_eq_of_one_le {result : Except ArithmeticFault Decimal}
    (h : Manageable p m) (hresult : RoundsOnce p m x result) (hx : 1 ≤ x) (hr : result = .ok r) :
    r.value = nearest p x := by
  have hm := h.maxExponent_pos
  have hone := one_le_nearest h.precision_pos hx
  have hlog : 0 ≤ Int.log 10 |nearest p x| :=
    le_log (by rwa [zpow_zero, abs_of_pos (by linarith)])
  obtain ⟨-, hfault⟩ | ⟨hlow, -⟩ | ⟨-, r', hr', hvalue⟩ := hresult.outcome h
  · cases hr.symm.trans hfault
  · omega
  · cases hr.symm.trans hr'
    exact hvalue

private theorem factorial_succ_mul_pow (hn : 0 < n) (x : ℚ) :
    ((n + 1).factorial : ℚ) * x ^ n = n.factorial * x ^ (n - 1) * (n + 1 : ℕ) * x := by
  obtain ⟨k, rfl⟩ := Nat.exists_eq_succ_of_ne_zero hn.ne'
  rw [Nat.factorial_succ, Nat.succ_eq_add_one, Nat.add_sub_cancel, pow_succ]
  push_cast
  ring

/-- Where the digits suffice for the next factorial they have sufficed for the earlier one, and one
exact product leads from there to the next. -/
private theorem mul_factor_eq (hsmall : n + 1 < 10 ^ 7) (h : NearFactorial limits n r)
    (hlt : (n + 1).factorial < 10 ^ limits.precision) {next : Decimal}
    (hnext : mul limits r (.ofInt (n + 1 : ℕ)) = .ok next) (hnext0 : next.value ≠ 0) :
    next = ⟨(n + 1).factorial, 0⟩ := by
  have hr := h.normal.moderate limits.manageable
  have hearlier := h.eq_of_lt ((Nat.factorial_le n.le_succ).trans_lt hlt)
  have hcoefficient : r.coefficient * (ofInt (n + 1 : ℕ)).coefficient = (n + 1).factorial := by
    rw [hearlier, Nat.factorial_succ, mul_comm]
    rfl
  have hfew : |r.coefficient * (ofInt (n + 1 : ℕ)).coefficient| < 10 ^ limits.precision := by
    rw [hcoefficient, Nat.abs_cast]
    exact_mod_cast hlt
  rw [mul_eq_of_lt hr (moderate_factor hsmall) hfew hnext hnext0, hcoefficient, hearlier]
  rfl

/-- One more factor. -/
private theorem multiplied_mul (hn : 0 < n) (hsmall : n + 1 < 10 ^ 7)
    (h : NearFactorial limits n r) :
    Multiplied limits (n + 1) (mul limits r (.ofInt (n + 1 : ℕ))) := by
  have hr := h.normal.moderate limits.manageable
  have hfactor := moderate_factor hsmall
  have hproduct : RoundsOnce limits.precision limits.maxExponent (r.value * (n + 1 : ℕ))
      (mul limits r (.ofInt (n + 1 : ℕ))) := by
    have hrounds := roundsOnce_mulTo (p := limits.precision) (m := limits.maxExponent) hr hfactor
    rwa [value_ofInt, Int.cast_natCast] at hrounds
  have hone : 1 ≤ r.value * (n + 1 : ℕ) := one_le_mul_of_one_le_of_one_le h.one_le (by simp)
  cases hnext : mul limits r (.ofInt (n + 1 : ℕ)) with
  | error fault => exact hproduct.fault_eq limits.manageable hnext
  | ok next =>
      have hvalue := hproduct.value_eq_of_one_le limits.manageable hone hnext
      have hrounded := one_le_nearest limits.precision_pos hone
      obtain ⟨hlow, hhigh⟩ := nearest_mem_of_pos (p := limits.precision)
        (zero_lt_one.trans_le hone)
      rw [← hvalue] at hlow hhigh hrounded
      refine ⟨normal_mulTo limits.manageable hr hfactor hnext, hrounded, ?_, ?_,
        fun hlt => mul_factor_eq hsmall h hlt hnext (by linarith)⟩
      · have hunit := five_div_pow_le_one limits.precision_pos
        calc ((n + 1).factorial : ℚ) * (1 - 5 / 10 ^ limits.precision) ^ n
            = n.factorial * (1 - 5 / 10 ^ limits.precision) ^ (n - 1) * (n + 1 : ℕ) *
                (1 - 5 / 10 ^ limits.precision) := factorial_succ_mul_pow hn _
          _ ≤ r.value * (n + 1 : ℕ) * (1 - 5 / 10 ^ limits.precision) :=
              mul_le_mul_of_nonneg_right
                (mul_le_mul_of_nonneg_right h.le_value (Nat.cast_nonneg _)) (by linarith)
          _ ≤ next.value := hlow
      · have hunit : (0 : ℚ) ≤ 5 / 10 ^ limits.precision := by positivity
        calc next.value ≤ r.value * (n + 1 : ℕ) * (1 + 5 / 10 ^ limits.precision) := hhigh
          _ ≤ n.factorial * (1 + 5 / 10 ^ limits.precision) ^ (n - 1) * (n + 1 : ℕ) *
                (1 + 5 / 10 ^ limits.precision) :=
              mul_le_mul_of_nonneg_right
                (mul_le_mul_of_nonneg_right h.value_le (Nat.cast_nonneg _)) (by linarith)
          _ = (n + 1).factorial * (1 + 5 / 10 ^ limits.precision) ^ n :=
              (factorial_succ_mul_pow hn _).symm

/-! ## All products -/

/-- The products of the first `k` factors behind one. -/
private theorem multiplied_products (limits : Limits) {k : ℕ} (hk : k + 1 < 10 ^ 7) :
    Multiplied limits (k + 1) ((List.range' 2 k).foldlM
      (fun product (factor : ℕ) => mul limits product (.ofInt factor)) .one) := by
  induction k with
  | zero => exact nearFactorial_one limits le_rfl
  | succ k ih =>
      have hbefore := ih (by omega)
      rw [List.range'_1_concat, List.foldlM_append, show 2 + k = k + 1 + 1 by omega]
      cases hproduct : (List.range' 2 k).foldlM
          (fun product (factor : ℕ) => mul limits product (.ofInt factor)) .one with
      | error fault =>
          rw [hproduct] at hbefore
          exact hbefore
      | ok product =>
          rw [hproduct] at hbefore
          change Multiplied limits (k + 1 + 1)
            (mul limits product (.ofInt (k + 1 + 1 : ℕ)) >>= pure)
          rw [bind_pure]
          exact multiplied_mul k.succ_pos hk hbefore

theorem multiplied_factorial (limits : Limits) (n : ℕ) :
    Multiplied limits n (Decimal.factorial limits n) := by
  unfold Decimal.factorial
  split
  · rfl
  · next hexceeds =>
    have hle := le_of_not_factorialExceeds hexceeds
    unfold largestFactorialOperand at hle
    cases n with
    | zero => exact nearFactorial_one limits (by omega)
    | succ k => exact multiplied_products limits (by omega)

/-- The factorial of any number is exact while the digits suffice for it.  Beyond that it lies
within as many roundings as there are products.  The only fault is the overflow. -/
theorem factorial_exact_or_near (limits : Limits) (n : ℕ) :
    let u : ℚ := 5 / 10 ^ limits.precision
    (∀ r, Decimal.factorial limits n = .ok r →
      n.factorial * (1 - u) ^ (n - 1) ≤ r.value ∧ r.value ≤ n.factorial * (1 + u) ^ (n - 1) ∧
        (n.factorial < 10 ^ limits.precision → r = ⟨n.factorial, 0⟩)) ∧
      ∀ fault, Decimal.factorial limits n = .error fault → fault = .overflow := by
  intro u
  have hmultiplied := multiplied_factorial limits n
  constructor
  · intro r hr
    rw [hr] at hmultiplied
    exact ⟨hmultiplied.le_value, hmultiplied.value_le, hmultiplied.eq_of_lt⟩
  · intro fault hfault
    rwa [hfault] at hmultiplied

/-- Thirty factors need more digits than are kept, and twenty do not. -/
theorem factorial_of_thirty :
    Decimal.factorial .default 30 = .ok ⟨2652528598121910586363084800, 5⟩ ∧
      (30).factorial * (1 - 5 / 10 ^ 28) ^ (30 - 1) ≤
        (⟨2652528598121910586363084800, 5⟩ : Decimal).value ∧
      (⟨2652528598121910586363084800, 5⟩ : Decimal).value ≤
        (30).factorial * (1 + 5 / 10 ^ 28) ^ (30 - 1) ∧
      Decimal.factorial .default 20 = .ok ⟨2432902008176640000, 0⟩ ∧
      (20).factorial < 10 ^ 28 ∧
      (⟨2432902008176640000, 0⟩ : Decimal) = ⟨(20).factorial, 0⟩ := by
  have hthirty : Decimal.factorial .default 30 = .ok ⟨2652528598121910586363084800, 5⟩ := by
    decide +kernel
  have htwenty : Decimal.factorial .default 20 = .ok ⟨2432902008176640000, 0⟩ := by
    decide +kernel
  have hfew : (20).factorial < 10 ^ 28 := by decide
  obtain ⟨hlow, hhigh, -⟩ := (factorial_exact_or_near .default 30).1 _ hthirty
  obtain ⟨-, -, hexact⟩ := (factorial_exact_or_near .default 20).1 _ htwenty
  exact ⟨hthirty, hlow, hhigh, htwenty, hfew, hexact hfew⟩

end Decimal

end Reckon
