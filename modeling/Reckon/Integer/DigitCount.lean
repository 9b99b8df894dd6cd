/-!
# Counting decimal digits

`digitCount n` is the number of decimal digits that `n` is written with; zero is written with one.
The count is found by bisection: a number below the power of ten of exponent `2 ^ (level + 1)` is
compared with the power of exponent `2 ^ level`, and the digits of its upper or of its lower part
are counted one level down.
-/

namespace Reckon

/-- The digits of a number below the power of ten of exponent `2 ^ level`. -/
def digitCountBelow : Nat → Nat → Nat
  | 0, _ => 1
  | level + 1, n =>
    if n < Nat.pow 10 (Nat.pow 2 level) then digitCountBelow level n
    else Nat.pow 2 level + digitCountBelow level (n / Nat.pow 10 (Nat.pow 2 level))

/-- A level that is high enough for `n`: three bits make less than one decimal digit. -/
def digitLevel (n : Nat) : Nat := (n.log2 / 3 + 1).log2 + 1

/-- The number of decimal digits of `n`. -/
def digitCount (n : Nat) : Nat := digitCountBelow (digitLevel n) n

theorem digitCountBelow_pos : ∀ level n, 0 < digitCountBelow level n
  | 0, _ => Nat.one_pos
  | level + 1, n => by
    unfold digitCountBelow
    split
    · exact digitCountBelow_pos level n
    · exact Nat.lt_of_lt_of_le (digitCountBelow_pos level _) (Nat.le_add_left ..)

theorem digitCount_pos (n : Nat) : 0 < digitCount n := digitCountBelow_pos ..

@[simp] theorem digitCount_zero : digitCount 0 = 1 := by decide

end Reckon
