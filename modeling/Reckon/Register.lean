/-!
# The exponent register

Powers of ten are counted in a signed register.  Every sum, difference or negation of exponents
passes through it once: `Register.wrap` says what is left of a plain one, and `Register.saturate`
what is left of a guarded one.  The calculator runs with a register of sixty-four bits (`word64`,
the instance that is found without asking), where a plain result wraps around and a guarded one
stays at the end that it would have passed.

The arithmetic is written for any register.  With `unbounded`, which holds every integer, the same
definitions are the arithmetic of exact exponents, and a sixty-four-bit result that stays in range
is the unbounded one (`wrap_of_inRange`, `saturate_of_inRange`).
-/

namespace Reckon

/-- A register for exponents: what it holds after an integer result has been put into it. -/
class Register where
  /-- What a plain sum, difference or negation leaves in the register. -/
  wrap : Int → Int
  /-- What a guarded sum or difference leaves in the register. -/
  saturate : Int → Int

namespace Register

/-- The least integer that sixty-four signed bits hold. -/
def least : Int := -9223372036854775808

/-- The greatest integer that sixty-four signed bits hold. -/
def greatest : Int := 9223372036854775807

/-- An integer that sixty-four signed bits hold. -/
def InRange (n : Int) : Prop := least ≤ n ∧ n ≤ greatest

instance (n : Int) : Decidable (InRange n) := inferInstanceAs (Decidable (_ ∧ _))

/-- Sixty-four signed bits: plain results wrap around, guarded ones stop at either end. -/
instance word64 : Register where
  wrap n := n.bmod 18446744073709551616
  saturate n := max least (min n greatest)

/-- A register without limits, which holds whatever is put into it. -/
@[reducible] def unbounded : Register where
  wrap n := n
  saturate n := n

theorem wrap_of_inRange {n : Int} (h : InRange n) : word64.wrap n = n := by
  obtain ⟨hl, hg⟩ := h
  simp only [least, greatest] at hl hg
  change n.bmod _ = n
  exact Int.bmod_eq_of_le (by omega) (by omega)

theorem saturate_of_inRange {n : Int} (h : InRange n) : word64.saturate n = n := by
  obtain ⟨hl, hg⟩ := h
  change max least (min n greatest) = n
  omega

/-- A guarded result is always one that the register holds. -/
theorem inRange_saturate (n : Int) : InRange (word64.saturate n) := by
  change least ≤ max least (min n greatest) ∧ max least (min n greatest) ≤ greatest
  have : least ≤ greatest := by decide
  omega

@[simp] theorem unbounded_wrap (n : Int) : unbounded.wrap n = n := rfl

@[simp] theorem unbounded_saturate (n : Int) : unbounded.saturate n = n := rfl

end Register

end Reckon
