import Reckon.Proofs.Except
import Reckon.Proofs.Grammar.DepthLimit

/-!
# A limit larger than the number of tokens is never exceeded

Every token opens at most one level, and every operator that is applied has come from a token of
its own.  So what has been read is weighed by what it may still add to the height of an expression
(`Stage.weight`): the operators that wait, and the heights of the operands that are held.  A token
adds at most one to the weight, completing an operand adds nothing, and a stage lies at most one
level deeper than it weighs (`Stage.depth_le_weight`).  As long as fewer tokens have been taken
than the limit allows, no guard can fail (`Unguarded`), whether the tokens form an expression
or not.

Together with `Expr.withholds_ofTokens` this is all that the depth limit does: it withholds answers
and never changes one (`Expr.depth_limit_only_withholds`).
-/

namespace Reckon

variable {α β : Type*} {limit position n : ℕ} {operand : Subtree} {levels : List Level}
  {waiting : List Operator} {token : Token} {stage : Stage}

/-- The result is not that the depth limit is exceeded, and a value that is returned weighs at
most `bound`. -/
def Unguarded (weight : α → ℕ) (bound : ℕ) : Except ParseError α → Prop
  | .ok a => weight a ≤ bound
  | .error e => ∀ limit position, e ≠ .nestingTooDeep limit position

theorem Unguarded.bind {weight : α → ℕ} {weight' : β → ℕ} {bound bound' : ℕ}
    {x : Except ParseError α} {f : α → Except ParseError β} (h : Unguarded weight bound x)
    (hnext : ∀ a, weight a ≤ bound → Unguarded weight' bound' (f a)) :
    Unguarded weight' bound' (x.bind f) := by
  cases x with
  | error e => exact h
  | ok a => exact hnext a h

/-! ## The weight of what has been read -/

/-- The operators of a level, and the height of the operand that it holds. -/
def Level.weight : Level → ℕ
  | rightOperand left _ => left.height + 1
  | parenthesis waiting _ => waiting.length + 1

/-- What all the open levels may add. -/
def levelsWeight : List Level → ℕ
  | [] => 0
  | level :: levels => level.weight + levelsWeight levels

def Stage.weight : Stage → ℕ
  | wanting waiting levels => waiting.length + levelsWeight levels
  | holding operand levels => operand.height + levelsWeight levels

theorem Stage.weight_wanting (waiting : List Operator) (levels : List Level) :
    (wanting waiting levels).weight = waiting.length + levelsWeight levels :=
  rfl

theorem Stage.weight_holding (operand : Subtree) (levels : List Level) :
    (holding operand levels).weight = operand.height + levelsWeight levels :=
  rfl

theorem levelsWeight_rightOperand (left : Subtree) (op : Operator) (levels : List Level) :
    levelsWeight (.rightOperand left op :: levels) = left.height + 1 + levelsWeight levels :=
  rfl

theorem levelsWeight_parenthesis (waiting : List Operator) (start : ℕ) (levels : List Level) :
    levelsWeight (.parenthesis waiting start :: levels) =
      waiting.length + 1 + levelsWeight levels :=
  rfl

theorem nesting_le_levelsWeight (levels : List Level) :
    nesting levels ≤ levelsWeight levels + 1 := by
  induction levels with
  | nil => exact Nat.le_refl _
  | cons level levels ih =>
      cases level with
      | rightOperand left op =>
          rw [levelsWeight_rightOperand, nesting, Level.depth]
          omega
      | parenthesis waiting start =>
          rw [levelsWeight_parenthesis, nesting, Level.depth]
          omega

theorem Stage.depth_le_weight (stage : Stage) : stage.depth ≤ stage.weight + 1 := by
  cases stage with
  | wanting waiting levels =>
      have := nesting_le_levelsWeight levels
      rw [weight_wanting, depth]
      omega
  | holding operand levels =>
      have := nesting_le_levelsWeight levels
      rw [weight_holding, depth]
      omega

/-! ## Applying operators -/

namespace Subtree

theorem unguarded_unary {op : Operator} (h : operand.height + 1 ≤ limit) :
    Unguarded height (operand.height + 1) (unary limit position op operand) := by
  unfold unary
  rw [if_pos h]
  exact Nat.le_refl _

/-- Two operands together are at least as high as the higher one. -/
theorem unguarded_binary {op : Operator} {left : Subtree}
    (h : left.height + operand.height + 1 ≤ limit) :
    Unguarded height (left.height + operand.height + 1)
      (binary limit position op left operand) := by
  unfold binary
  rw [if_pos (by omega)]
  show max left.height operand.height + 1 ≤ left.height + operand.height + 1
  omega

theorem unguarded_applyAll (h : operand.height + waiting.length ≤ limit) :
    Unguarded height (operand.height + waiting.length)
      (applyAll limit position operand waiting) := by
  induction waiting generalizing operand with
  | nil => exact Nat.le_refl _
  | cons op waiting ih =>
      rw [List.length_cons] at h ⊢
      have hunary : Unguarded height (operand.height + 1) (unary limit position op operand) :=
        unguarded_unary (by omega)
      refine hunary.bind fun applied happlied => ?_
      have hrest : Unguarded height (applied.height + waiting.length)
          (applyAll limit position applied waiting) := ih (by omega)
      revert hrest
      cases applyAll limit position applied waiting with
      | error e => exact id
      | ok result =>
          intro hrest
          show result.height ≤ _
          have : result.height ≤ applied.height + waiting.length := hrest
          omega

end Subtree

/-! ## Taking tokens -/

namespace Stage

theorem unguarded_guardDepth (hlimit : n + 1 ≤ limit) (h : stage.weight ≤ n) :
    Unguarded weight n (guardDepth limit position stage) := by
  have hdepth := stage.depth_le_weight
  unfold guardDepth
  rw [if_pos (by omega)]
  exact h

/-- Completing right operands makes nothing heavier. -/
theorem unguarded_settle (precedence : ℕ) (hlimit : n ≤ limit)
    (h : operand.height + levelsWeight levels ≤ n) :
    Unguarded (fun settled : Subtree × List Level => settled.1.height + levelsWeight settled.2) n
      (settle limit position precedence operand levels) := by
  induction levels generalizing operand with
  | nil => exact h
  | cons level levels ih =>
      cases level with
      | parenthesis waiting start => exact h
      | rightOperand left op =>
          unfold settle
          split
          · rw [levelsWeight_rightOperand] at h
            exact (Subtree.unguarded_binary (by omega)).bind fun completed hcompleted =>
              ih (by omega)
          · exact h

/-- What surrounds an operand whose right operands have all been completed. -/
def outerWeight : Option (List Operator × ℕ × List Level) → ℕ
  | none => 0
  | some (waiting, _, levels) => waiting.length + 1 + levelsWeight levels

theorem unguarded_unwind (hlimit : n ≤ limit) (h : operand.height + levelsWeight levels ≤ n) :
    Unguarded (fun unwound : Subtree × Option (List Operator × ℕ × List Level) =>
        unwound.1.height + outerWeight unwound.2) n
      (unwind limit position operand levels) := by
  induction levels generalizing operand with
  | nil => exact h
  | cons level levels ih =>
      cases level with
      | parenthesis waiting start =>
          rw [levelsWeight_parenthesis] at h
          exact h
      | rightOperand left op =>
          rw [levelsWeight_rightOperand] at h
          exact (Subtree.unguarded_binary (by omega)).bind fun completed hcompleted =>
            ih (by omega)

/-- The operators waiting in front of an operand are part of the weight already. -/
private theorem unguarded_applyAll_holding (hlimit : n ≤ limit)
    (h : operand.height + waiting.length + levelsWeight levels ≤ n) :
    Unguarded weight n (do
      let applied ← Subtree.applyAll limit position operand waiting
      pure (holding applied levels)) := by
  refine (Subtree.unguarded_applyAll (by omega)).bind fun applied happlied => ?_
  show applied.height + levelsWeight levels ≤ n
  omega

theorem unguarded_feedWanting (hlimit : n + 2 ≤ limit)
    (h : (wanting waiting levels).weight ≤ n) :
    Unguarded weight (n + 1) (feedWanting limit position token waiting levels) := by
  rw [weight_wanting] at h
  unfold feedWanting
  split
  · next literal =>
    split
    · exact unguarded_applyAll_holding (by omega)
        (by show 0 + waiting.length + levelsWeight levels ≤ n + 1; omega)
    · intro limit position hdeep
      cases hdeep
  · refine unguarded_guardDepth (by omega) ?_
    rw [weight_wanting, levelsWeight_parenthesis, List.length_nil]
    omega
  · split
    · refine unguarded_guardDepth (by omega) ?_
      rw [weight_wanting, List.length_cons]
      omega
    · intro limit position hdeep
      cases hdeep

theorem unguarded_feedClosing (hlimit : n + 2 ≤ limit) (h : (holding operand levels).weight ≤ n) :
    Unguarded weight (n + 1) (feedClosing limit position token operand levels) := by
  refine (unguarded_unwind (n := n) (by omega) h).bind ?_
  rintro ⟨inside, _ | ⟨waiting, start, rest⟩⟩ hunwound
  · intro limit position hdeep
    cases hdeep
  · dsimp only [outerWeight] at hunwound ⊢
    split
    · exact unguarded_applyAll_holding (by omega) (by omega)
    · intro limit position hdeep
      cases hdeep

theorem unguarded_feedHolding (hlimit : n + 2 ≤ limit) (h : (holding operand levels).weight ≤ n) :
    Unguarded weight (n + 1) (feedHolding limit position token operand levels) := by
  have hweight : operand.height + levelsWeight levels ≤ n := h
  unfold feedHolding
  split
  · refine (Subtree.unguarded_unary (by omega)).bind fun applied happlied => ?_
    show applied.height + levelsWeight levels ≤ n + 1
    omega
  · next op _ hop =>
    refine (unguarded_settle op.precedence (by omega) hweight).bind ?_
    rintro ⟨left, rest⟩ hsettled
    refine unguarded_guardDepth (by omega) ?_
    dsimp only at hsettled
    rw [weight_wanting, levelsWeight_rightOperand, List.length_nil]
    omega
  · exact unguarded_feedClosing hlimit h

/-- A token adds at most one to the weight, and while few have been taken no guard fails. -/
theorem unguarded_feed (hlimit : n + 2 ≤ limit) (h : stage.weight ≤ n) :
    Unguarded weight (n + 1) (stage.feed limit position token) := by
  cases stage with
  | wanting waiting levels => exact unguarded_feedWanting hlimit h
  | holding operand levels => exact unguarded_feedHolding hlimit h

theorem unguarded_finish (hlimit : n ≤ limit) (h : stage.weight ≤ n) :
    Unguarded (fun _ => 0) 0 (stage.finish limit position) := by
  cases stage with
  | wanting waiting levels =>
      intro limit position hdeep
      cases hdeep
  | holding operand levels =>
      refine (unguarded_unwind hlimit h).bind ?_
      rintro ⟨inside, _ | ⟨waiting, start, rest⟩⟩ -
      · exact Nat.le_refl _
      · intro limit position hdeep
        cases hdeep

theorem unguarded_run {tokens : List Token} (hlimit : n + tokens.length < limit)
    (h : stage.weight ≤ n) : Unguarded (fun _ => 0) 0 (stage.run limit position tokens) := by
  induction tokens generalizing stage position n with
  | nil => exact unguarded_finish (by omega) h
  | cons token tokens ih =>
      rw [List.length_cons] at hlimit
      rw [run_cons_eq_bind]
      exact (unguarded_feed (by omega) h).bind fun next hnext => ih (by omega) hnext

end Stage

/-! ## The main result -/

namespace Expr

theorem unguarded_ofTokens {limits : Limits} {tokens : List Token}
    (h : tokens.length < limits.maxDepth) :
    Unguarded (fun _ => 0) 0 (ofTokens limits tokens) := by
  cases tokens with
  | nil =>
      intro limit position hdeep
      cases hdeep
  | cons token tokens => exact Stage.unguarded_run (n := 0) (by omega) (Nat.le_refl _)

/-- Whatever the tokens are, a smaller depth limit gives what a larger one gives, the same
expression or the same error, or reports that it is exceeded; and a limit larger than the number of
tokens is not exceeded. -/
theorem depth_limit_only_withholds (tokens : List Token) :
    (∀ limits limits' : Limits, limits.maxDepth ≤ limits'.maxDepth →
      (∃ position,
        ofTokens limits tokens = .error (.nestingTooDeep limits.maxDepth position)) ∨
      ofTokens limits tokens = ofTokens limits' tokens) ∧
    ∀ limits : Limits, tokens.length < limits.maxDepth → ∀ limit position,
      ofTokens limits tokens ≠ .error (.nestingTooDeep limit position) := by
  constructor
  · intro limits limits' h
    exact withholds_ofTokens h tokens
  · intro limits h limit position hdeep
    have hunguarded := unguarded_ofTokens h
    rw [hdeep] at hunguarded
    exact hunguarded limit position rfl

/-- A limit of one level may withhold that a parenthesis is not closed, but report nothing else, and
the default limit is not exceeded. -/
theorem unclosed_parenthesis_withheld :
    ((∃ position, ofTokens { Limits.default with maxDepth := 1, maxDepth_pos := by decide }
        [.leftParen, .number "5"] = .error (.nestingTooDeep 1 position)) ∨
      ofTokens { Limits.default with maxDepth := 1, maxDepth_pos := by decide }
        [.leftParen, .number "5"] = ofTokens .default [.leftParen, .number "5"]) ∧
    ofTokens .default [.leftParen, .number "5"] ≠ .error (.nestingTooDeep 512 1) :=
  ⟨(depth_limit_only_withholds [.leftParen, .number "5"]).1 _ _ (by decide),
    (depth_limit_only_withholds [.leftParen, .number "5"]).2 _ (by decide) _ _⟩

end Expr

end Reckon
