import Mathlib.Data.Nat.Notation
import Mathlib.Tactic.TypeStar
import Reckon.Expr.Parse

/-!
# The depth limit only withholds

The reader looks at the depth limit in two kinds of guards, and a guard that holds under a limit
holds under every larger one.  So what is read under the smaller limit is what is read under the
larger one, unless a guard has reported that the smaller limit is exceeded (`Withholds`).  This
passes through every step of the reader, and through its recursion over the tokens.
-/

namespace Reckon

variable {α β : Type*} {limit limit' position : ℕ}

/-- The result is that of the larger limit, or reports that the limit is exceeded. -/
def Withholds (limit : ℕ) (result full : Except ParseError α) : Prop :=
  (∃ position, result = .error (.nestingTooDeep limit position)) ∨ result = full

namespace Withholds

theorem refl (result : Except ParseError α) : Withholds limit result result := Or.inr rfl

theorem bind {x y : Except ParseError α} {f g : α → Except ParseError β} (h : Withholds limit x y)
    (hnext : ∀ a, Withholds limit (f a) (g a)) : Withholds limit (x.bind f) (y.bind g) := by
  rcases h with ⟨position, rfl⟩ | rfl
  · exact Or.inl ⟨position, rfl⟩
  · cases x with
    | error e => exact refl _
    | ok a => exact hnext a

theorem guard (h : limit ≤ limit') (n : ℕ) (a : α) :
    Withholds limit (if n ≤ limit then .ok a else .error (.nestingTooDeep limit position))
      (if n ≤ limit' then .ok a else .error (.nestingTooDeep limit' position)) := by
  by_cases hn : n ≤ limit
  · rw [if_pos hn, if_pos (Nat.le_trans hn h)]
    exact refl _
  · rw [if_neg hn]
    exact Or.inl ⟨position, rfl⟩

end Withholds

/-! ## Applying operators -/

namespace Subtree

variable {operand : Subtree}

theorem withholds_unary (h : limit ≤ limit') (op : Operator) :
    Withholds limit (unary limit position op operand) (unary limit' position op operand) :=
  .guard h _ _

theorem withholds_binary (h : limit ≤ limit') (op : Operator) (left : Subtree) :
    Withholds limit (binary limit position op left operand)
      (binary limit' position op left operand) :=
  .guard h _ _

theorem withholds_applyAll (h : limit ≤ limit') (waiting : List Operator) :
    Withholds limit (applyAll limit position operand waiting)
      (applyAll limit' position operand waiting) := by
  induction waiting generalizing operand with
  | nil => exact .refl _
  | cons op waiting ih => exact (withholds_unary h op).bind fun _ => ih

end Subtree

/-! ## Taking tokens -/

namespace Stage

variable {token : Token} {operand : Subtree} {stage : Stage}

theorem withholds_guardDepth (h : limit ≤ limit') :
    Withholds limit (guardDepth limit position stage) (guardDepth limit' position stage) :=
  .guard h _ _

theorem withholds_settle (h : limit ≤ limit') (precedence : ℕ) (levels : List Level) :
    Withholds limit (settle limit position precedence operand levels)
      (settle limit' position precedence operand levels) := by
  induction levels generalizing operand with
  | nil => exact .refl _
  | cons level levels ih =>
      cases level with
      | parenthesis waiting start => exact .refl _
      | rightOperand left op =>
          unfold settle
          split
          · exact (Subtree.withholds_binary h op left).bind fun _ => ih
          · exact .refl _

theorem withholds_unwind (h : limit ≤ limit') (levels : List Level) :
    Withholds limit (unwind limit position operand levels)
      (unwind limit' position operand levels) := by
  induction levels generalizing operand with
  | nil => exact .refl _
  | cons level levels ih =>
      cases level with
      | parenthesis waiting start => exact .refl _
      | rightOperand left op => exact (Subtree.withholds_binary h op left).bind fun _ => ih

theorem withholds_feedWanting (h : limit ≤ limit') (waiting : List Operator)
    (levels : List Level) :
    Withholds limit (feedWanting limit position token waiting levels)
      (feedWanting limit' position token waiting levels) := by
  unfold feedWanting
  split
  · split
    · exact (Subtree.withholds_applyAll h waiting).bind fun _ => .refl _
    · exact .refl _
  · exact withholds_guardDepth h
  · split
    · exact withholds_guardDepth h
    · exact .refl _

theorem withholds_feedClosing (h : limit ≤ limit') (levels : List Level) :
    Withholds limit (feedClosing limit position token operand levels)
      (feedClosing limit' position token operand levels) := by
  refine (withholds_unwind h levels).bind ?_
  rintro ⟨inside, _ | ⟨waiting, start, rest⟩⟩
  · exact .refl _
  · dsimp only
    split
    · exact (Subtree.withholds_applyAll h waiting).bind fun _ => .refl _
    · exact .refl _

theorem withholds_feedHolding (h : limit ≤ limit') (levels : List Level) :
    Withholds limit (feedHolding limit position token operand levels)
      (feedHolding limit' position token operand levels) := by
  unfold feedHolding
  split
  · exact (Subtree.withholds_unary h _).bind fun _ => .refl _
  · exact (withholds_settle h _ levels).bind fun _ => withholds_guardDepth h
  · exact withholds_feedClosing h levels

theorem withholds_feed (h : limit ≤ limit') :
    Withholds limit (stage.feed limit position token) (stage.feed limit' position token) := by
  cases stage with
  | wanting waiting levels => exact withholds_feedWanting h waiting levels
  | holding operand levels => exact withholds_feedHolding h levels

theorem withholds_finish (h : limit ≤ limit') :
    Withholds limit (stage.finish limit position) (stage.finish limit' position) := by
  cases stage with
  | wanting waiting levels => exact .refl _
  | holding operand levels => exact (withholds_unwind h levels).bind fun _ => .refl _

theorem run_cons_eq_bind (limit position : ℕ) (stage : Stage) (token : Token)
    (tokens : List Token) :
    stage.run limit position (token :: tokens) =
      (stage.feed limit position token).bind fun next => next.run limit (position + 1) tokens := by
  rw [run]
  cases stage.feed limit position token <;> rfl

theorem withholds_run (h : limit ≤ limit') (tokens : List Token) :
    Withholds limit (stage.run limit position tokens) (stage.run limit' position tokens) := by
  induction tokens generalizing stage position with
  | nil => exact withholds_finish h
  | cons token tokens ih =>
      rw [run_cons_eq_bind, run_cons_eq_bind]
      exact (withholds_feed h).bind fun _ => ih

end Stage

/-- Whatever the tokens are, a smaller depth limit gives what a larger one gives, or reports that
it is exceeded. -/
theorem Expr.withholds_ofTokens {limits limits' : Limits} (h : limits.maxDepth ≤ limits'.maxDepth)
    (tokens : List Token) :
    Withholds limits.maxDepth (ofTokens limits tokens) (ofTokens limits' tokens) := by
  cases tokens with
  | nil => exact .refl _
  | cons token tokens => exact Stage.withholds_run h _

end Reckon
