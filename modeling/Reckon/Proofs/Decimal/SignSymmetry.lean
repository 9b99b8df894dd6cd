import Reckon.Decimal.Extremes
import Reckon.Decimal.Power
import Reckon.Decimal.Remainder
import Reckon.Proofs.Decimal.ExactSum
import Reckon.Proofs.Decimal.Order
import Reckon.Proofs.Decimal.Power

/-!
# Arithmetic under a change of signs

A result is a number or a fault, and it is turned round by turning the number round.  Every
operation follows the signs of its operands: when they are turned round its result is turned round
or left as it is, with the same digits and the same exponent.

## Strategy

Digits are counted and exponents chosen without looking at a sign, and a quotient half-way between
two integers goes to the same magnitude on either side of zero (`divHalfEven_neg`).  So almost
everything here is read off the definitions, for any register and for decimals of any size.  Two
facts need more.  A difference with its operands exchanged adds them in the other order, which does
not matter because a sum is the exact sum rounded (`add_eq_roundExactly`).  And a power takes its
sign from the parity of the exponent (`withParity`): squaring loses the sign of the base, and an odd
step gives it back (`powBySquaring_neg`); beyond twenty digits the parity is looked up in the
exponent (`isOdd_iff`).
-/

namespace Reckon.Decimal

variable {a b d : Decimal} {n : ℤ}

/-! ## Questions about one number -/

theorem isZero_neg (d : Decimal) : (-d).isZero = d.isZero := by
  simp [isZero]

theorem isNegative_neg (hd : d.coefficient ≠ 0) : (-d).isNegative = !d.isNegative := by
  rw [Bool.eq_iff_iff, Bool.not_eq_true', Bool.eq_false_iff, ne_eq, isNegative_iff, isNegative_iff,
    neg_coefficient]
  omega

protected theorem abs_neg (d : Decimal) : (-d).abs = d.abs := by
  unfold abs
  rw [neg_coefficient, neg_exponent, Int.natAbs_neg]

section Register

variable [Register]

theorem adjustedExponent_neg (d : Decimal) : (-d).adjustedExponent = d.adjustedExponent := by
  unfold adjustedExponent
  rw [digits_neg, neg_exponent]

theorem rescale_neg (e : ℤ) (d : Decimal) : (-d).rescale e = -d.rescale e := by
  unfold rescale
  rw [neg_coefficient, neg_exponent, neg_mul]
  rfl

/-! ## Rounding -/

theorem keepDigits_neg (p : ℕ) (d : Decimal) : (-d).keepDigits p = -d.keepDigits p := by
  have hmk : ∀ c e : ℤ, (⟨-c, e⟩ : Decimal) = -⟨c, e⟩ := fun _ _ => rfl
  unfold keepDigits
  dsimp only
  rw [digits_neg, neg_coefficient, neg_exponent, divHalfEven_neg, hmk, digits_neg]
  split
  · rfl
  · split
    · rfl
    · rw [Int.neg_tdiv]
      rfl

theorem roundTo_neg (p : ℕ) (m : ℤ) (d : Decimal) :
    (-d).roundTo p m = (d.roundTo p m).map (-·) := by
  unfold roundTo
  dsimp only
  rw [isZero_neg, keepDigits_neg, adjustedExponent_neg]
  split
  · rfl
  · split
    · rfl
    · split <;> rfl

theorem round_neg (limits : Limits) (d : Decimal) :
    (-d).round limits = (d.round limits).map (-·) :=
  roundTo_neg ..

/-! ## Order -/

theorem compareMagnitude_neg (a b : Decimal) :
    (-a).compareMagnitude (-b) = a.compareMagnitude b := by
  unfold compareMagnitude
  rw [adjustedExponent_neg, adjustedExponent_neg, Decimal.abs_neg, Decimal.abs_neg]
  rfl

omit [Register] in
private theorem compare_sign_neg (x y : ℤ) :
    compare (-x).sign (-y).sign = (compare x.sign y.sign).swap := by
  rw [Int.sign_neg, Int.sign_neg, ← swap_compare_neg x.sign, Ordering.swap_swap]

/-- The opposite numbers stand in the opposite order. -/
theorem compare_neg (a b : Decimal) : (-a).compare (-b) = (a.compare b).swap := by
  unfold Decimal.compare
  rw [neg_coefficient, neg_coefficient, compare_sign_neg, isZero_neg, compareMagnitude_neg]
  cases compare a.coefficient.sign b.coefficient.sign with
  | lt => rfl
  | gt => rfl
  | eq =>
      dsimp only [Ordering.swap]
      by_cases ha : a.coefficient = 0
      · rw [if_pos (isZero_iff.2 ha), if_pos (isZero_iff.2 ha)]
      · rw [if_neg (mt isZero_iff.1 ha), if_neg (mt isZero_iff.1 ha), isNegative_neg ha]
        cases a.isNegative
        · rfl
        · exact Ordering.swap_swap.symm

/-- The larger of the opposite numbers is the opposite of the smaller. -/
theorem larger_neg (limits : Limits) (a b : Decimal) :
    larger limits (-a) (-b) = (smaller limits a b).map (-·) := by
  have horder : (-b).compare (-a) = .gt ↔ b.compare a = .lt := by
    rw [compare_neg, Ordering.swap_eq_gt]
  unfold larger smaller
  by_cases h : b.compare a = .lt
  · rw [if_pos (horder.2 h), if_pos h, round_neg]
  · rw [if_neg (mt horder.1 h), if_neg h, round_neg]

/-! ## Sums -/

theorem addZero_neg (p : ℕ) (zero value : Decimal) :
    addZero p (-zero) (-value) = -addZero p zero value := by
  unfold addZero
  dsimp only
  rw [isZero_neg, rescale_neg, neg_exponent, neg_exponent]

theorem visibleFloor_neg (p : ℕ) (d : Decimal) : visibleFloor p (-d) = visibleFloor p d := by
  unfold visibleFloor
  rw [digits_neg, neg_exponent]

theorem standIn_neg (floor : ℤ) (d : Decimal) : (-d).standIn floor = -d.standIn floor := by
  unfold standIn
  rw [adjustedExponent_neg, neg_coefficient, Int.sign_neg]
  split <;> rfl

theorem addAligned_neg (a b : Decimal) : addAligned (-a) (-b) = -addAligned a b := by
  unfold addAligned
  dsimp only
  rw [neg_exponent, neg_exponent, rescale_neg, rescale_neg, neg_coefficient, neg_coefficient,
    ← neg_add]
  rfl

theorem addUnrounded_neg (p : ℕ) (a b : Decimal) :
    addUnrounded p (-a) (-b) = -addUnrounded p a b := by
  have haligned : ∀ large small : Decimal,
      addAligned (-large) ((-small).standIn (visibleFloor p (-large))) =
        -addAligned large (small.standIn (visibleFloor p large)) := by
    intro large small
    rw [visibleFloor_neg, standIn_neg, addAligned_neg]
  unfold addUnrounded
  rw [isZero_neg, isZero_neg, addZero_neg, addZero_neg, neg_exponent, neg_exponent]
  split
  · rfl
  · split
    · rfl
    · by_cases h : b.exponent ≤ a.exponent
      · rw [if_pos h, if_pos h]
        exact haligned a b
      · rw [if_neg h, if_neg h]
        exact haligned b a

protected theorem add_neg (limits : Limits) (a b : Decimal) :
    add limits (-a) (-b) = (add limits a b).map (-·) := by
  unfold add
  rw [addUnrounded_neg, round_neg]

/-! ## Products, quotients and means -/

theorem mulTo_neg_left (p : ℕ) (m : ℤ) (a b : Decimal) :
    mulTo p m (-a) b = (mulTo p m a b).map (-·) := by
  unfold mulTo
  rw [neg_coefficient, neg_exponent, neg_mul, ← roundTo_neg]
  rfl

theorem mulTo_neg_right (p : ℕ) (m : ℤ) (a b : Decimal) :
    mulTo p m a (-b) = (mulTo p m a b).map (-·) := by
  unfold mulTo
  rw [neg_coefficient, neg_exponent, mul_neg, ← roundTo_neg]
  rfl

theorem divUnrounded_neg_left (p : ℕ) (a b : Decimal) :
    divUnrounded p (-a) b = divUnrounded p a b := by
  unfold divUnrounded
  rw [digits_neg, neg_coefficient, neg_exponent, Int.natAbs_neg]

theorem divUnrounded_neg_right (p : ℕ) (a b : Decimal) :
    divUnrounded p a (-b) = divUnrounded p a b := by
  unfold divUnrounded
  rw [digits_neg, neg_coefficient, neg_exponent, Int.natAbs_neg]

/-- Where one of two signs is turned round, they agree if and only if they did not before. -/
private theorem roundTo_signed_not (p : ℕ) (m : ℤ) (quotient : ℕ) (e : ℤ) (s t : Bool) :
    (⟨if (!s) = t then (quotient : ℤ) else -quotient, e⟩ : Decimal).roundTo p m =
      ((⟨if s = t then (quotient : ℤ) else -quotient, e⟩ : Decimal).roundTo p m).map (-·) := by
  rw [← roundTo_neg]
  congr 1
  show _ = (⟨_, e⟩ : Decimal)
  cases s <;> cases t <;> simp

theorem divTo_neg_left (p : ℕ) (m : ℤ) (a b : Decimal) :
    divTo p m (-a) b = (divTo p m a b).map (-·) := by
  unfold divTo
  rw [isZero_neg, divUnrounded_neg_left, neg_exponent]
  by_cases hb : b.isZero
  · rw [if_pos hb, if_pos hb]
    rfl
  rw [if_neg hb, if_neg hb]
  by_cases ha : a.coefficient = 0
  · rw [if_pos (isZero_iff.2 ha), if_pos (isZero_iff.2 ha), ← roundTo_neg]
    rfl
  · rw [if_neg (mt isZero_iff.1 ha), if_neg (mt isZero_iff.1 ha), isNegative_neg ha]
    exact roundTo_signed_not ..

theorem divTo_neg_right (p : ℕ) (m : ℤ) (a b : Decimal) :
    divTo p m a (-b) = (divTo p m a b).map (-·) := by
  unfold divTo
  rw [isZero_neg, divUnrounded_neg_right, neg_exponent]
  by_cases hb : b.coefficient = 0
  · rw [if_pos (isZero_iff.2 hb), if_pos (isZero_iff.2 hb)]
    rfl
  rw [if_neg (mt isZero_iff.1 hb), if_neg (mt isZero_iff.1 hb)]
  by_cases ha : a.isZero
  · rw [if_pos ha, if_pos ha, ← roundTo_neg]
    rfl
  · rw [if_neg ha, if_neg ha, isNegative_neg hb]
    simp only [eq_comm (a := a.isNegative)]
    exact roundTo_signed_not ..

theorem average_neg (limits : Limits) (a b : Decimal) :
    average limits (-a) (-b) = (average limits a b).map (-·) := by
  unfold average
  rw [addUnrounded_neg, divTo_neg_left]

/-! ## Remainders -/

theorem remMagnitude_neg_left (a b : Decimal) : remMagnitude (-a) b = remMagnitude a b := by
  unfold remMagnitude
  rw [digits_neg, neg_coefficient, neg_exponent, Int.natAbs_neg]

theorem remMagnitude_neg_right (a b : Decimal) : remMagnitude a (-b) = remMagnitude a b := by
  unfold remMagnitude
  rw [neg_coefficient, neg_exponent, Int.natAbs_neg]

theorem remMagnitude_of_zero (ha : a.coefficient = 0) (b : Decimal) : remMagnitude a b = 0 := by
  unfold remMagnitude
  simp [ha]

/-- The remainder has the sign of the dividend. -/
theorem rem_neg_left (limits : Limits) (a b : Decimal) :
    rem limits (-a) b = (rem limits a b).map (-·) := by
  have hsign : (if (-a).isNegative then -(remMagnitude a b : ℤ) else remMagnitude a b) =
      -(if a.isNegative then -(remMagnitude a b : ℤ) else remMagnitude a b) := by
    by_cases ha : a.coefficient = 0
    · simp [remMagnitude_of_zero ha]
    · rw [isNegative_neg ha]
      cases a.isNegative <;> simp
  unfold rem
  by_cases hb : b.isZero
  · rw [if_pos hb, if_pos hb]
    rfl
  · rw [if_neg hb, if_neg hb]
    dsimp only
    rw [remMagnitude_neg_left, neg_exponent, hsign, ← round_neg]
    rfl

theorem rem_neg_right (limits : Limits) (a b : Decimal) :
    rem limits a (-b) = rem limits a b := by
  unfold rem
  rw [isZero_neg, remMagnitude_neg_right, neg_exponent]

/-! ## Powers -/

/-- What the power of the opposite base is, given the power of the base: the same for an even
exponent, and the opposite for an odd one. -/
def withParity (n : ℤ) (d : Decimal) : Decimal := if Even n then d else -d

section Parity

omit [Register]

theorem withParity_of_even (hn : Even n) : withParity n = id := by
  funext d
  exact if_pos hn

theorem withParity_of_odd (hn : Odd n) : withParity n = (-·) := by
  funext d
  exact if_neg (Int.not_even_iff_odd.2 hn)

theorem withParity_natAbs (n : ℤ) : withParity (n.natAbs : ℤ) = withParity n := by
  rcases Int.even_or_odd n with hn | hn
  · rw [withParity_of_even hn, withParity_of_even ((Int.even_coe_nat _).2 (Int.natAbs_even.2 hn))]
  · rw [withParity_of_odd hn, withParity_of_odd ((Int.odd_coe_nat _).2 (Int.natAbs_odd.2 hn))]

theorem withParity_zero (n : ℤ) : withParity n .zero = .zero := by
  unfold withParity
  split <;> rfl

theorem isZero_withParity (n : ℤ) (d : Decimal) : (withParity n d).isZero = d.isZero := by
  unfold withParity
  split
  · rfl
  · exact isZero_neg d

/-- What follows the sign of its operand follows the parity. -/
theorem map_withParity {f : Decimal → Except ArithmeticFault Decimal}
    (hf : ∀ d, f (-d) = (f d).map (-·)) (n : ℤ) (d : Decimal) :
    f (withParity n d) = (f d).map (withParity n) := by
  unfold withParity
  split
  · cases f d <;> rfl
  · exact hf d

end Parity

/-- Both factors lose their sign. -/
private theorem mulTo_withParity_self (p : ℕ) (m : ℤ) (n : ℤ) (d : Decimal) :
    mulTo p m (withParity n d) (withParity n d) = mulTo p m d d := by
  unfold withParity
  split
  · rfl
  · rw [mulTo_neg_left, mulTo_neg_right]
    cases mulTo p m d d with
    | error fault => rfl
    | ok square => exact congrArg Except.ok (Decimal.neg_neg square)

/-- Squaring loses the sign of the base, and an odd step gives it back. -/
theorem powBySquaring_neg (p : ℕ) (m : ℤ) (a : Decimal) (k : ℕ) :
    powBySquaring p m (-a) k = (powBySquaring p m a k).map (withParity k) := by
  induction k using Nat.strong_induction_on with
  | _ k ih =>
      conv_lhs => unfold powBySquaring
      conv_rhs => unfold powBySquaring
      by_cases hk : k = 0
      · rw [if_pos hk, if_pos hk, hk]
        rfl
      rw [if_neg hk, if_neg hk, ih (k / 2) (by omega)]
      cases powBySquaring p m a (k / 2) with
      | error fault => rfl
      | ok half =>
          show (mulTo p m (withParity _ half) (withParity _ half)).bind _ =
            ((mulTo p m half half).bind _).map _
          rw [mulTo_withParity_self]
          cases mulTo p m half half with
          | error fault => rfl
          | ok square =>
              dsimp only [Except.bind]
              rcases Nat.even_or_odd k with heven | hodd
              · have hk : k % 2 = 0 := Nat.even_iff.1 heven
                rw [if_pos hk, if_pos hk, withParity_of_even ((Int.even_coe_nat k).2 heven)]
                rfl
              · have hk : ¬k % 2 = 0 := by
                  have := Nat.odd_iff.1 hodd
                  omega
                rw [if_neg hk, if_neg hk, withParity_of_odd ((Int.odd_coe_nat k).2 hodd),
                  mulTo_neg_right]

theorem powInt_neg (limits : Limits) (a : Decimal) (n : ℤ) :
    powInt limits (-a) n = (powInt limits a n).map (withParity n) := by
  unfold powInt
  dsimp only
  rw [powBySquaring_neg, withParity_natAbs]
  generalize powBySquaring _ _ a _ = powered
  split
  · cases powered with
    | error fault => rfl
    | ok r => exact map_withParity (round_neg limits) n r
  · match powered with
    | .error .overflow => exact congrArg Except.ok (withParity_zero n).symm
    | .error .divisionByZero => rfl
    | .error .undefined => rfl
    | .ok r =>
        dsimp only [Except.map]
        rw [isZero_withParity]
        split
        · rfl
        · exact map_withParity (divTo_neg_right _ _ .one) n r

theorem powHuge_neg (ha : a.coefficient ≠ 0) (hodd : b.isOdd = true ↔ Odd n) :
    powHuge (-a) b = (powHuge a b).map (withParity n) := by
  have hone : (if (!a.isNegative && b.isOdd) = true then -Decimal.one else .one) =
      withParity n (if (a.isNegative && b.isOdd) = true then -Decimal.one else .one) := by
    rcases Int.even_or_odd n with hn | hn
    · have hfalse : b.isOdd = false := by
        rwa [Bool.eq_false_iff, ne_eq, hodd, Int.not_odd_iff_even]
      rw [withParity_of_even hn, hfalse, Bool.and_false, Bool.and_false, id]
    · rw [withParity_of_odd hn, hodd.2 hn]
      cases a.isNegative <;> rfl
  unfold powHuge
  rw [Decimal.abs_neg, isNegative_neg ha]
  split
  · exact congrArg Except.ok hone
  · rfl
  · rfl
  · exact congrArg Except.ok (withParity_zero n).symm
  · exact congrArg Except.ok (withParity_zero n).symm

end Register

/-! ## Moderate numbers -/

/-- The power of the opposite base has the same digits, and the sign that the parity of the exponent
gives it. -/
protected theorem pow_neg (limits : Limits) (hb : b.Moderate) (hn : b.value = n) :
    pow limits (-a) b = (pow limits a b).map (withParity n) := by
  unfold pow
  rw [isZero_neg]
  by_cases hb0 : b.coefficient = 0
  · have heven : Even n := by
      have : n = 0 := by
        rw [value_eq_zero_iff.2 hb0] at hn
        exact_mod_cast hn.symm
      rw [this]
      exact Even.zero
    rw [if_pos (isZero_iff.2 hb0), if_pos (isZero_iff.2 hb0)]
    split
    · rfl
    · rw [withParity_of_even heven]
      rfl
  rw [if_neg (mt isZero_iff.1 hb0), if_neg (mt isZero_iff.1 hb0)]
  by_cases ha0 : a.coefficient = 0
  · rw [if_pos (isZero_iff.2 ha0), if_pos (isZero_iff.2 ha0)]
    split
    · rfl
    · exact congrArg Except.ok (withParity_zero n).symm
  rw [if_neg (mt isZero_iff.1 ha0), if_neg (mt isZero_iff.1 ha0),
    if_pos ((isInteger_iff hb).2 ⟨n, hn⟩), if_pos ((isInteger_iff hb).2 ⟨n, hn⟩),
    powIntegral_eq limits hb hb0 hn, powIntegral_eq limits hb hb0 hn]
  split
  · exact powInt_neg limits a n
  · exact powHuge_neg ha0 ((isOdd_iff hb hn).trans Int.odd_iff.symm)

/-- The order of the operands does not matter to a sum, so exchanging those of a difference turns it
round. -/
theorem sub_swap (limits : Limits) (ha : a.Moderate) (hb : b.Moderate) :
    sub limits b a = (sub limits a b).map (-·) := by
  calc sub limits b a = add limits b (-a) := rfl
    _ = add limits (-a) b := by
        rw [add_eq_roundExactly limits hb ha.neg, add_eq_roundExactly limits ha.neg hb,
          exactSum_comm]
    _ = add limits (-a) (- -b) := by rw [Decimal.neg_neg]
    _ = (sub limits a b).map (-·) := Decimal.add_neg limits a (-b)

/-- When operands are turned round, the results of all operations are turned round with them or
stay as they are, coefficient and exponent or fault.  The remainder follows its dividend only, and
a power follows its base where the exponent, whatever its size and sign, is odd. -/
theorem arithmetic_follows_signs (limits : Limits) (ha : a.Moderate) (hb : b.Moderate) :
    (-a).round limits = (a.round limits).map (-·) ∧
      add limits (-a) (-b) = (add limits a b).map (-·) ∧
      sub limits b a = (sub limits a b).map (-·) ∧
      mul limits (-a) b = (mul limits a b).map (-·) ∧
      div limits (-a) b = (div limits a b).map (-·) ∧
      div limits a (-b) = (div limits a b).map (-·) ∧
      rem limits (-a) b = (rem limits a b).map (-·) ∧
      rem limits a (-b) = rem limits a b ∧
      average limits (-a) (-b) = (average limits a b).map (-·) ∧
      larger limits (-a) (-b) = (smaller limits a b).map (-·) ∧
      ∀ n : ℤ, b.value = n →
        (Even n → pow limits (-a) b = pow limits a b) ∧
          (Odd n → pow limits (-a) b = (pow limits a b).map (-·)) := by
  refine ⟨round_neg limits a, Decimal.add_neg limits a b, sub_swap limits ha hb, mulTo_neg_left ..,
    divTo_neg_left .., divTo_neg_right .., rem_neg_left limits a b, rem_neg_right limits a b,
    average_neg limits a b, larger_neg limits a b, fun n hn => ⟨fun heven => ?_, fun hodd => ?_⟩⟩
  · rw [Decimal.pow_neg limits hb hn, withParity_of_even heven, Except.map_id, id]
  · rw [Decimal.pow_neg limits hb hn, withParity_of_odd hodd]

/-- The exponent is three with a zero behind the point, and odd: the cube of a negative base is
negative. -/
theorem cube_of_minus_one_and_a_half :
    (⟨15, -1⟩ : Decimal).Moderate ∧ (⟨30, -1⟩ : Decimal).Moderate ∧
      (⟨30, -1⟩ : Decimal).value = (3 : ℤ) ∧ Odd (3 : ℤ) ∧
      pow .default (-⟨15, -1⟩) ⟨30, -1⟩ = .ok ⟨-3375, -3⟩ := by
  have hbase : (⟨15, -1⟩ : Decimal).Moderate := ⟨by decide, by decide, by decide⟩
  have hexponent : (⟨30, -1⟩ : Decimal).Moderate := ⟨by decide, by decide, by decide⟩
  have hthree : (⟨30, -1⟩ : Decimal).value = (3 : ℤ) := by norm_num [value]
  have hodd : Odd (3 : ℤ) := by decide
  obtain ⟨-, -, -, -, -, -, -, -, -, -, hpow⟩ :=
    arithmetic_follows_signs .default hbase hexponent
  refine ⟨hbase, hexponent, hthree, hodd, ?_⟩
  rw [(hpow 3 hthree).2 hodd]
  decide +kernel

end Reckon.Decimal
