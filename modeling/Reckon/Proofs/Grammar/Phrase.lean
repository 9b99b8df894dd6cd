import Mathlib.Data.Nat.Notation
import Reckon.Expr.Parse

/-!
# The grammar of expressions

A phrase is an expression together with the way it is written: the texts of its numbers and all of
its parentheses.  Its tokens and the expression that it stands for can be read off
(`Phrase.tokens`, `Phrase.expr`), so the grammar is only a matter of which phrases are grouped as
the precedences ask for (`Phrase.Grouped`).  A list of tokens spells an expression when it is
written like a grouped phrase that stands for it (`Spells`).

Operators in front of an operand and behind it do not take part in the table of precedences.  One
in front takes the shortest operand that follows, one behind takes everything in front of it that
is not separated from it by an operator between operands.
-/

namespace Reckon

/-- An expression as it is written. -/
inductive Phrase where
  | number (literal : String) (value : Decimal)
  | parenthesis (inside : Phrase)
  | before (op : Operator) (operand : Phrase)
  | behind (operand : Phrase) (op : Operator)
  | between (left : Phrase) (op : Operator) (right : Phrase)

namespace Phrase

def tokens : Phrase → List Token
  | number literal _ => [.number literal]
  | parenthesis inside => .leftParen :: (inside.tokens ++ [.rightParen])
  | before op operand => .symbol op.symbol :: operand.tokens
  | behind operand op => operand.tokens ++ [.symbol op.symbol]
  | between left op right => left.tokens ++ .symbol op.symbol :: right.tokens

/-- The expression that the phrase stands for; parentheses only group. -/
def expr : Phrase → Expr
  | number _ value => .number value
  | parenthesis inside => inside.expr
  | before op operand => .unary op operand.expr
  | behind operand op => .unary op operand.expr
  | between left op right => .binary op left.expr right.expr

/-- How deeply the phrase is nested: one level for itself, and one more inside each parenthesis,
behind each operator that stands in front, and in each right operand. -/
def nesting : Phrase → ℕ
  | number .. => 1
  | parenthesis inside => inside.nesting + 1
  | before _ operand => operand.nesting + 1
  | behind operand _ => operand.nesting
  | between left _ right => max left.nesting (right.nesting + 1)

/-! ## Grouping -/

/-- Whether the phrase may stand directly behind an operator in front of it. -/
def FollowsPrefix : Phrase → Prop
  | number .. | parenthesis _ | before .. => True
  | behind .. | between .. => False

/-- Whether the phrase may stand directly in front of an operator behind it. -/
def PrecedesPostfix : Phrase → Prop
  | between .. => False
  | number .. | parenthesis _ | before .. | behind .. => True

/-- Whether the phrase may be the left operand. -/
def FitsLeft (op : Operator) : Phrase → Prop
  | between _ inner _ =>
    op.precedence < inner.precedence ∨
      inner.precedence = op.precedence ∧ op.associativity = .left
  | number .. | parenthesis _ | before .. | behind .. => True

/-- Whether the phrase may be the right operand. -/
def FitsRight (op : Operator) : Phrase → Prop
  | between _ inner _ =>
    op.precedence < inner.precedence ∨
      inner.precedence = op.precedence ∧ op.associativity = .right
  | number .. | parenthesis _ | before .. | behind .. => True

/-- Whether every number is the value of its text, every operator stands in its place, and no
operand is written without parentheses where it does not belong to the operator. -/
def Grouped : Phrase → Prop
  | number literal value => Decimal.read literal = .ok value
  | parenthesis inside => inside.Grouped
  | before op operand => op.fixing = .before ∧ operand.Grouped ∧ operand.FollowsPrefix
  | behind operand op => op.fixing = .behind ∧ operand.Grouped ∧ operand.PrecedesPostfix
  | between left op right =>
    op.fixing = .between ∧ left.Grouped ∧ right.Grouped ∧ left.FitsLeft op ∧ right.FitsRight op

end Phrase

/-- The tokens are a way to write the expression. -/
def Spells (tokens : List Token) (e : Expr) : Prop :=
  ∃ p : Phrase, p.Grouped ∧ p.tokens = tokens ∧ p.expr = e

/-! ## Grouping by precedence

The reader does not look at associativity but compares a precedence with `nextMinPrecedence`.
Operators of one precedence are grouped from the same side, so that comes to the same. -/

theorem Operator.associativity_eq_of_precedence_eq {op op' : Operator}
    (h : op.precedence = op'.precedence) : op.associativity = op'.associativity := by
  revert h
  cases op <;> cases op' <;> decide

theorem Operator.nextMinPrecedence_le_iff {op inner : Operator} :
    op.nextMinPrecedence ≤ inner.precedence ↔
      op.precedence < inner.precedence ∨
        inner.precedence = op.precedence ∧ op.associativity = .right := by
  unfold nextMinPrecedence
  cases op.associativity with
  | left => simp only [reduceCtorEq, and_false, or_false]; omega
  | right => simp only [and_true]; omega

theorem Operator.lt_nextMinPrecedence_iff {op inner : Operator} :
    op.precedence < inner.nextMinPrecedence ↔
      op.precedence < inner.precedence ∨
        inner.precedence = op.precedence ∧ op.associativity = .left := by
  by_cases heq : inner.precedence = op.precedence
  · have hside := associativity_eq_of_precedence_eq heq
    unfold nextMinPrecedence
    rw [hside]
    cases op.associativity with
    | left => simp only [heq, and_self, or_true, iff_true]; omega
    | right => simp only [heq, reduceCtorEq, and_false, or_false]
  · unfold nextMinPrecedence
    cases inner.associativity with
    | left => simp only [heq, false_and, or_false]; omega
    | right => simp only [heq, false_and, or_false]

namespace Phrase

/-- Whether the operator that the phrase falls apart at, if there is one, has at least the given
precedence. -/
def AtLeast (precedence : ℕ) : Phrase → Prop
  | between _ inner _ => precedence ≤ inner.precedence
  | number .. | parenthesis _ | before .. | behind .. => True

variable {p : Phrase} {op : Operator}

theorem fitsRight_iff : p.FitsRight op ↔ p.AtLeast op.nextMinPrecedence := by
  cases p with
  | between left inner right => exact Operator.nextMinPrecedence_le_iff.symm
  | number | parenthesis | before | behind => exact Iff.rfl

theorem fitsLeft_between {left right : Phrase} {inner : Operator} :
    (between left inner right).FitsLeft op ↔ op.precedence < inner.nextMinPrecedence :=
  Operator.lt_nextMinPrecedence_iff.symm

theorem PrecedesPostfix.fitsLeft (h : p.PrecedesPostfix) : p.FitsLeft op := by
  cases p with
  | between => exact h.elim
  | number | parenthesis | before | behind => trivial

theorem PrecedesPostfix.atLeast (h : p.PrecedesPostfix) (n : ℕ) : p.AtLeast n := by
  cases p with
  | between => exact h.elim
  | number | parenthesis | before | behind => trivial

theorem FollowsPrefix.precedesPostfix (h : p.FollowsPrefix) : p.PrecedesPostfix := by
  cases p with
  | behind | between => exact h.elim
  | number | parenthesis | before => trivial

end Phrase

end Reckon
