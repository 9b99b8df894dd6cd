import Mathlib.Data.Nat.Notation
import Reckon.Expr.Parse
import Reckon.Proofs.Except

/-!
# What the guards report

Applying an operator, completing right operands and opening a level fail for one reason only, that
the depth limit is exceeded, and they report it at the position that they are given
(`OnlyExceeds`).  So whatever else the reader reports, it reports about a token that it has looked
at or about the end of the input.
-/

namespace Reckon

variable {α β : Type*} {limit position : ℕ} {operand : Subtree} {stage : Stage}

/-- The only failure is that the depth limit is exceeded at the position. -/
def OnlyExceeds (limit position : ℕ) (x : Except ParseError α) : Prop :=
  ∀ e, x = .error e → e = .nestingTooDeep limit position

namespace OnlyExceeds

theorem ok (a : α) : OnlyExceeds limit position (.ok a) := by
  intro e h
  cases h

theorem guard (n : ℕ) (a : α) :
    OnlyExceeds limit position
      (if n ≤ limit then .ok a else .error (.nestingTooDeep limit position)) := by
  split
  · exact ok a
  · intro e h
    exact (Except.error.inj h).symm

theorem bind {x : Except ParseError α} {f : α → Except ParseError β}
    (h : OnlyExceeds limit position x) (hnext : ∀ a, OnlyExceeds limit position (f a)) :
    OnlyExceeds limit position (x.bind f) := by
  cases x with
  | error e => exact fun e' he' => h e' (congrArg _ (Except.error.inj he'))
  | ok a => exact hnext a

/-- What is reported behind a guard, other than that the limit is exceeded, is reported by the next
step. -/
theorem exists_of_bind_eq_error {x : Except ParseError α} {f : α → Except ParseError β}
    {e : ParseError} (hx : OnlyExceeds limit position x) (h : x.bind f = .error e)
    (hdeep : ∀ limit position, e ≠ .nestingTooDeep limit position) :
    ∃ a, x = .ok a ∧ f a = .error e := by
  cases x with
  | error e' =>
      cases h
      exact absurd (hx e rfl) (hdeep _ _)
  | ok a => exact ⟨a, rfl, h⟩

theorem avoids {P : ParseError → Prop} {x : Except ParseError α}
    (h : OnlyExceeds limit position x) (hP : ¬P (.nestingTooDeep limit position)) :
    x.Avoids P := by
  intro e he
  rwa [h e he]

end OnlyExceeds

/-! ## Applying operators -/

namespace Subtree

theorem onlyExceeds_unary (op : Operator) :
    OnlyExceeds limit position (unary limit position op operand) :=
  .guard _ _

theorem onlyExceeds_binary (op : Operator) (left : Subtree) :
    OnlyExceeds limit position (binary limit position op left operand) :=
  .guard _ _

theorem onlyExceeds_applyAll (waiting : List Operator) :
    OnlyExceeds limit position (applyAll limit position operand waiting) := by
  induction waiting generalizing operand with
  | nil => exact .ok _
  | cons op waiting ih => exact (onlyExceeds_unary op).bind fun _ => ih

end Subtree

/-! ## Levels -/

namespace Stage

theorem onlyExceeds_guardDepth : OnlyExceeds limit position (guardDepth limit position stage) :=
  .guard _ _

theorem onlyExceeds_settle (precedence : ℕ) (levels : List Level) :
    OnlyExceeds limit position (settle limit position precedence operand levels) := by
  induction levels generalizing operand with
  | nil => exact .ok _
  | cons level levels ih =>
      cases level with
      | parenthesis waiting start => exact .ok _
      | rightOperand left op =>
          unfold settle
          split
          · exact (Subtree.onlyExceeds_binary op left).bind fun _ => ih
          · exact .ok _

theorem onlyExceeds_unwind (levels : List Level) :
    OnlyExceeds limit position (unwind limit position operand levels) := by
  induction levels generalizing operand with
  | nil => exact .ok _
  | cons level levels ih =>
      cases level with
      | parenthesis waiting start => exact .ok _
      | rightOperand left op => exact (Subtree.onlyExceeds_binary op left).bind fun _ => ih

end Stage

end Reckon
