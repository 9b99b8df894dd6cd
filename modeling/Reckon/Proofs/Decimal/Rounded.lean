import Reckon.Proofs.NearestEven
import Reckon.Proofs.Decimal.Rounding

/-!
# Rounding: the value of the result

What `roundTo` does to the value of a decimal is a function of that value: it is rounded to the
nearest number of `precision` significant digits and held to the range (`rounded`), and neither the
coefficient nor the exponent plays a part (`map_value_roundTo`).

An operation need not hand the exact result to `roundTo`.  It is enough that the number it hands
over lies on the same side of every half-way point (`RoundsAs`).  Then what comes out is the exact
result, rounded once (`RoundsOnce`): its value depends on the exact result only
(`RoundsOnce.map_value`).
-/

namespace Reckon

variable {p : ℕ} {m : ℤ} {x y z : ℚ}

/-! ## Rounding numbers -/

/-- The number of `p` significant digits nearest to `x`, of two equally near ones the one with the
even last digit. -/
def nearest (p : ℕ) (x : ℚ) : ℚ :=
  nearestEven (x / 10 ^ (Int.log 10 |x| + 1 - p)) * 10 ^ (Int.log 10 |x| + 1 - p)

/-- The number made to fit `p` digits and exponents up to `m`. -/
def rounded (p : ℕ) (m : ℤ) (x : ℚ) : Except ArithmeticFault ℚ :=
  if m < Int.log 10 |nearest p x| then .error .overflow
  else if Int.log 10 |nearest p x| < -m then .ok 0
  else .ok (nearest p x)

theorem nearest_zero (p : ℕ) : nearest p 0 = 0 := by
  unfold nearest
  rw [zero_div, ← Int.cast_zero (R := ℚ), nearestEven_intCast, Int.cast_zero, zero_mul]

/-- A number with few digits is its own nearest one. -/
theorem nearest_of_representable (h : Representable p x) : nearest p x = x := by
  rcases eq_or_ne x 0 with rfl | hne
  · exact nearest_zero p
  · obtain ⟨k, hk⟩ := h.exists_multiple (zpow_log_abs_le hne)
    have hunit := (ten_zpow_pos (Int.log 10 |x| + 1 - p)).ne'
    have hwhole : x / 10 ^ (Int.log 10 |x| + 1 - p) = k := (div_eq_iff hunit).2 hk
    unfold nearest
    rw [hwhole, nearestEven_intCast, ← hk]

theorem rounded_zero (hm : 0 < m) : rounded p m 0 = .ok 0 := by
  unfold rounded
  rw [nearest_zero, abs_zero, Int.log_zero_right, if_neg (by omega), if_neg (by omega)]

/-! ## Numbers that are rounded alike -/

/-- Rounded to `p` digits, `y` becomes what `x` does: it is the same number, or the two lie on the
same side of every half-way point far enough down. -/
def RoundsAs (p : ℕ) (x y : ℚ) : Prop :=
  x = y ∨ ∃ n : ℤ, n + p ≤ Int.log 10 |x| ∧ SameSide (5 * 10 ^ n) x y

/-- Powers of ten are whole multiples of the half-way points below them. -/
private theorem exists_zpow_eq {n t : ℤ} (h : n < t) :
    ∃ k : ℤ, (10 : ℚ) ^ t = k * (5 * 10 ^ n) := by
  refine ⟨2 * 10 ^ (t - n - 1).toNat, ?_⟩
  have hscale : (10 : ℚ) ^ t = 10 ^ (t - n - 1) * (10 * 10 ^ n) := by
    rw [← zpow_one_add₀ (by norm_num), ← ten_zpow_add]
    congr 1
    omega
  rw [hscale, ten_zpow_toNat (by omega)]
  push_cast
  ring

/-- Numbers on one side of every half-way point have their leading digits in the same place. -/
theorem SameSide.log_abs_eq {n : ℤ} (h : SameSide (5 * 10 ^ n) x y) (hlog : n < Int.log 10 |x|) :
    Int.log 10 |y| = Int.log 10 |x| := by
  rcases eq_or_ne x 0 with rfl | hne
  · rw [h.eq_of_multiple ⟨0, by simp⟩]
  · obtain ⟨low, hlow⟩ := exists_zpow_eq hlog
    obtain ⟨high, hhigh⟩ := exists_zpow_eq (hlog.trans (lt_add_one _))
    apply log_eq
    · rw [hlow, ← h.abs.ge_iff, ← hlow]
      exact zpow_log_abs_le hne
    · rw [hhigh, ← h.abs.lt_iff, ← hhigh]
      exact abs_lt_zpow_log x

/-- Further up there are fewer half-way points. -/
private theorem sameSide_of_le {n t : ℤ} (h : SameSide (5 * 10 ^ n) x y) (hn : n ≤ t) :
    SameSide (5 * 10 ^ t) x y := by
  refine h.of_multiple ⟨10 ^ (t - n).toNat, ?_⟩
  rw [← ten_zpow_toNat (by omega), mul_left_comm, ← ten_zpow_add, sub_add_cancel]

/-- Half-way points become halves in units of the last place. -/
private theorem sameSide_half {n t : ℤ} (h : SameSide (5 * 10 ^ n) x y) (hn : n < t) :
    SameSide (1 / 2) (x / 10 ^ t) (y / 10 ^ t) := by
  have hcoarse := sameSide_of_le h (t := t - 1) (by omega)
  have hscaled := hcoarse.mul_right (inv_pos.2 (ten_zpow_pos t))
  have hunit : (5 : ℚ) * 10 ^ (t - 1) * (10 ^ t)⁻¹ = 1 / 2 := by
    rw [zpow_sub_one₀ (by norm_num)]
    have := (ten_zpow_pos t).ne'
    field_simp
    norm_num
  rwa [hunit, ← div_eq_mul_inv, ← div_eq_mul_inv] at hscaled

theorem RoundsAs.nearest_eq (hp : 0 < p) (h : RoundsAs p x y) : nearest p y = nearest p x := by
  obtain rfl | ⟨n, hlog, hside⟩ := h
  · rfl
  · unfold nearest
    rw [hside.log_abs_eq (by omega),
      (sameSide_half hside (t := Int.log 10 |x| + 1 - p) (by omega)).nearestEven_eq]

theorem RoundsAs.trans (hp : 0 < p) (h : RoundsAs p x y) (h' : RoundsAs p y z) :
    RoundsAs p x z := by
  obtain rfl | ⟨n, hlog, hside⟩ := h
  · exact h'
  obtain rfl | ⟨n', hlog', hside'⟩ := h'
  · exact Or.inr ⟨n, hlog, hside⟩
  · rw [hside.log_abs_eq (by omega)] at hlog'
    exact Or.inr ⟨max n n', by omega, (sameSide_of_le hside (le_max_left ..)).trans
      (sameSide_of_le hside' (le_max_right ..))⟩

/-- A number that is rounded as a representable one is that number. -/
theorem RoundsAs.eq_of_representable (h : RoundsAs p x y) (hx : Representable p x) : x = y := by
  obtain rfl | ⟨n, hlog, hside⟩ := h
  · rfl
  · rcases eq_or_ne x 0 with rfl | hne
    · exact hside.eq_of_multiple ⟨0, by simp⟩
    · -- the digits of a representable number end above the half-way points
      obtain ⟨k, hk⟩ := hx.exists_multiple (zpow_log_abs_le hne)
      obtain ⟨l, hl⟩ := exists_zpow_eq (n := n) (t := Int.log 10 |x| + 1 - p) (by omega)
      refine hside.eq_of_multiple ⟨k * l, ?_⟩
      rw [Int.cast_mul, mul_assoc, ← hl, ← hk]

theorem RoundsAs.neg (h : RoundsAs p x y) : RoundsAs p (-x) (-y) := by
  obtain rfl | ⟨n, hlog, hside⟩ := h
  · exact Or.inl rfl
  · exact Or.inr ⟨n, by rwa [abs_neg], hside.neg⟩

/-- Half of a number has its leading digit at most one place further down. -/
private theorem log_abs_le_half (hx : x ≠ 0) : Int.log 10 |x| - 1 ≤ Int.log 10 |x / 2| := by
  apply le_log
  have hleading := zpow_log_abs_le hx
  rw [abs_div, abs_two, zpow_sub_one₀ (by norm_num)]
  linarith [ten_zpow_pos (Int.log 10 |x|)]

/-- Numbers that are rounded alike to two digits more have halves that are rounded alike. -/
theorem RoundsAs.div_two (h : RoundsAs (p + 2) x y) : RoundsAs p (x / 2) (y / 2) := by
  obtain rfl | ⟨n, hlog, hside⟩ := h
  · exact Or.inl rfl
  · rcases eq_or_ne x 0 with rfl | hne
    · rw [← hside.eq_of_multiple ⟨0, by simp⟩]
      exact Or.inl rfl
    · have hhalf := log_abs_le_half hne
      push_cast at hlog
      refine Or.inr ⟨n, by omega, ?_⟩
      have hscaled := (hside.of_multiple ⟨2, rfl⟩).mul_right (by norm_num : (0 : ℚ) < 1 / 2)
      rwa [Int.cast_ofNat, show (2 : ℚ) * (5 * 10 ^ n) * (1 / 2) = 5 * 10 ^ n by ring,
        mul_one_div, mul_one_div] at hscaled

/-! ## Rounding decimals -/

namespace Decimal

variable {d : Decimal}

theorem value_keepDigitsExactly_eq_nearest (hp : 0 < p) (d : Decimal) :
    (d.keepDigitsExactly p).value = nearest p d.value := by
  rcases Nat.lt_or_ge p d.digits with hlt | hge
  · have hne := coefficient_ne_zero_of_lt_digits hp hlt
    have hunit : d.leading + 1 - p = d.exponent + ((d.digits : ℤ) - p) := by
      unfold leading
      omega
    have hquotient : d.value / 10 ^ (d.exponent + ((d.digits : ℤ) - p)) =
        (d.coefficient : ℚ) / ((10 ^ (d.digits - p) : ℤ) : ℚ) := by
      rw [value, ten_zpow_add, ← Nat.cast_sub hlt.le, zpow_natCast]
      have := (ten_zpow_pos d.exponent).ne'
      push_cast
      field_simp
    rw [value_keepDigitsExactly hp hlt, nearest, log_abs_value hne, hunit, hquotient,
      divHalfEven_eq_nearestEven (by positivity)]
  · rw [keepDigitsExactly_of_digits_le hge]
    exact (nearest_of_representable ⟨_, _, (digits_le_iff hp).1 hge, rfl⟩).symm

/-- Rounding a decimal rounds its value. -/
theorem map_value_roundExactly (hp : 0 < p) (hm : 0 < m) (d : Decimal) :
    (d.roundExactly p m).map value = rounded p m d.value := by
  unfold roundExactly
  by_cases hzero : d.coefficient = 0
  · rw [if_pos hzero, value_eq_zero_iff.2 hzero, rounded_zero hm]
    exact congrArg Except.ok (value_eq_zero_iff.2 rfl)
  · rw [if_neg hzero, rounded, ← value_keepDigitsExactly_eq_nearest hp,
      log_abs_value (keepDigitsExactly_ne_zero hp hzero)]
    split
    · rfl
    · split
      · exact congrArg Except.ok value_zero
      · rfl

theorem map_value_roundTo (h : Manageable p m) (hd : d.Roomy) :
    (d.roundTo p m).map value = rounded p m d.value := by
  rw [roundTo_eq_roundExactly h hd, map_value_roundExactly h.precision_pos h.maxExponent_pos]

/-- Numbers with more digits than are kept are rounded alike, coefficient and exponent, as soon as
their values are. -/
theorem roundExactly_eq_of_lt_digits (hp : 0 < p) {d d' : Decimal} (hd : p < d.digits)
    (hd' : p < d'.digits) (h : nearest p d.value = nearest p d'.value) :
    d.roundExactly p m = d'.roundExactly p m := by
  have hne := coefficient_ne_zero_of_lt_digits hp hd
  have hne' := coefficient_ne_zero_of_lt_digits hp hd'
  have hkept : d.keepDigitsExactly p = d'.keepDigitsExactly p := by
    apply eq_of_value_eq (keepDigitsExactly_ne_zero hp hne)
    · rw [value_keepDigitsExactly_eq_nearest hp, value_keepDigitsExactly_eq_nearest hp, h]
    · rw [digits_keepDigitsExactly hp hd, digits_keepDigitsExactly hp hd']
  unfold roundExactly
  rw [if_neg hne, if_neg hne', hkept]

/-- The result of rounding a decimal that is rounded as `x`. -/
def RoundsOnce (p : ℕ) (m : ℤ) (x : ℚ) (result : Except ArithmeticFault Decimal) : Prop :=
  ∃ d : Decimal, d.Roomy ∧ RoundsAs p x d.value ∧ result = d.roundTo p m

theorem Roomy.roundsOnce (hd : d.Roomy) (hx : x = d.value) : RoundsOnce p m x (d.roundTo p m) :=
  ⟨d, hd, Or.inl hx, rfl⟩

variable {result : Except ArithmeticFault Decimal}

/-- The result has the value of the exact number, rounded. -/
theorem RoundsOnce.map_value (h : Manageable p m) (hresult : RoundsOnce p m x result) :
    result.map value = rounded p m x := by
  obtain ⟨d, hd, hx, rfl⟩ := hresult
  rw [map_value_roundTo h hd, rounded, rounded, hx.nearest_eq h.precision_pos]

/-- What is rounded for another number is rounded for every one that is rounded as that. -/
theorem RoundsOnce.of_roundsAs (hp : 0 < p) (h : RoundsAs p x y)
    (hresult : RoundsOnce p m y result) : RoundsOnce p m x result := by
  obtain ⟨d, hd, hy, rfl⟩ := hresult
  exact ⟨d, hd, h.trans hp hy, rfl⟩

theorem RoundsOnce.rounds (hresult : RoundsOnce p m x result) : Rounds p m x result := by
  obtain ⟨d, hd, hx, rfl⟩ := hresult
  exact ⟨d, hd, fun hrepresentable => (hx.eq_of_representable hrepresentable).symm, rfl⟩

end Decimal

end Reckon
