import Reckon.Expr.Basic
import Reckon.Proofs.Decimal.Numeral
import Reckon.Proofs.Decimal.Order

/-!
# The numbers in an expression

An expression can be changed in its numbers only: the signs of negative ones can be made operators
(`Expr.signless`), and positive exponents can be written out (`Expr.plain`).  The second keeps the
value of every number, which is what two expressions that are the same have in common
(`Expr.SameAs`).
-/

namespace Reckon

namespace Expr

variable {P Q : Decimal → Prop} {e : Expr}

/-- Every number in the expression has the property. -/
def ForallNumbers (P : Decimal → Prop) : Expr → Prop
  | number value => P value
  | unary _ operand => operand.ForallNumbers P
  | binary _ left right => left.ForallNumbers P ∧ right.ForallNumbers P

/-- Whether the numbers that the expression was written with are moderate. -/
def Moderate (e : Expr) : Prop := e.ForallNumbers Decimal.Moderate

/-- Whether the numbers in the expression can be written out. -/
def Writable (e : Expr) : Prop := e.ForallNumbers Decimal.Writable

theorem ForallNumbers.imp (h : e.ForallNumbers P) (hPQ : ∀ d, P d → Q d) : e.ForallNumbers Q := by
  induction e with
  | number value => exact hPQ _ h
  | unary op operand ih => exact ih h
  | binary op left right ihl ihr => exact ⟨ihl h.1, ihr h.2⟩

theorem Moderate.writable (h : e.Moderate) : e.Writable := h.imp fun _ hd => hd.writable

/-! ## Signs and exponents -/

/-- The expression with a minus in front of the magnitude of every negative number. -/
def signless : Expr → Expr
  | number value => if value.isNegative then unary .minus (number value.abs) else number value
  | unary op operand => unary op operand.signless
  | binary op left right => binary op left.signless right.signless

/-- The expression with the zeros of positive exponents written out. -/
def plain : Expr → Expr
  | number value => number value.plain
  | unary op operand => unary op operand.plain
  | binary op left right => binary op left.plain right.plain

theorem signless_of_nonneg (h : e.ForallNumbers fun d => 0 ≤ d.coefficient) : e.signless = e := by
  induction e with
  | number value =>
      have hvalue : 0 ≤ value.coefficient := h
      exact if_neg (by simpa using hvalue)
  | unary op operand ih => rw [signless, ih h]
  | binary op left right ihl ihr => rw [signless, ihl h.1, ihr h.2]

theorem forallNumbers_signless (h : e.ForallNumbers P) (habs : ∀ d, P d → P d.abs) :
    e.signless.ForallNumbers P := by
  induction e with
  | number value =>
      unfold signless
      split
      · exact habs _ h
      · exact h
  | unary op operand ih => exact ih h
  | binary op left right ihl ihr => exact ⟨ihl h.1, ihr h.2⟩

theorem plain_of_nonpos (h : e.ForallNumbers fun d => d.exponent ≤ 0) : e.plain = e := by
  induction e with
  | number value => rw [plain, Decimal.plain_of_nonpos h]
  | unary op operand ih => rw [plain, ih h]
  | binary op left right ihl ihr => rw [plain, ihl h.1, ihr h.2]

@[simp] theorem height_plain (e : Expr) : e.plain.height = e.height := by
  induction e with
  | number value => rfl
  | unary op operand ih => rw [plain, height, height, ih]
  | binary op left right ihl ihr => rw [plain, height, height, ihl, ihr]

/-! ## Comparing expressions -/

/-- The expressions have the same operators in the same places, and numbers of the same values. -/
def SameAs : Expr → Expr → Prop
  | number a, number b => a.value = b.value
  | unary op a, unary op' b => op = op' ∧ a.SameAs b
  | binary op a b, binary op' a' b' => op = op' ∧ a.SameAs a' ∧ b.SameAs b'
  | _, _ => False

theorem plain_sameAs (e : Expr) : e.plain.SameAs e := by
  induction e with
  | number value => exact Decimal.value_plain value
  | unary op operand ih => exact ⟨rfl, ih⟩
  | binary op left right ihl ihr => exact ⟨rfl, ihl, ihr⟩

/-- The calculator's own comparison finds the expressions equal as well, as long as the zeros that
were written out stay below the cap on powers of ten. -/
theorem plain_equiv (h : e.ForallNumbers fun d => d.exponent ≤ largestPower) :
    e.plain.equiv e := by
  induction e with
  | number value =>
      have hgap : |value.plain.exponent - value.exponent| ≤ largestPower := by
        unfold Decimal.plain
        split
        · simp
        · next hexponent =>
          rw [zero_sub, abs_neg, abs_of_pos (not_le.1 hexponent)]
          exact h
      have hcompare : value.plain.compare value = .eq := by
        rw [Decimal.compare_eq_compare_value fun _ => hgap, Decimal.value_plain]
        exact compare_eq_iff_eq.2 rfl
      simp [plain, equiv, Decimal.equiv, hcompare]
  | unary op operand ih => simp [plain, equiv, ih h]
  | binary op left right ihl ihr => simp [plain, equiv, ihl h.1, ihr h.2]

end Expr

end Reckon
