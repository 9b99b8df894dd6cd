/-!
# Operators

There are twelve operators: nine between two operands, two in front of one and one behind it.  An
operator is found by its symbol and its place (`Operator.find?`), which together name at most one;
only the minus is found in two places.  Precedence and associativity say how a chain of operators
is grouped: a higher precedence binds tighter, and `nextMinPrecedence` is the least that may bind
in the right operand.
-/

namespace Reckon

/-- Where an operator stands. -/
inductive Fixing where
  /-- In front of its operand. -/
  | before
  /-- Behind its operand. -/
  | behind
  /-- Between its operands. -/
  | between
  deriving DecidableEq

/-- How operators of one precedence are grouped. -/
inductive Associativity where
  /-- From the left. -/
  | left
  /-- From the right. -/
  | right
  deriving DecidableEq

/-- What an operator computes. -/
inductive Operation where
  | add
  | subtract
  | multiply
  | divide
  | modulo
  | power
  | average
  | maximum
  | minimum
  | negate
  | factorial
  deriving DecidableEq

/-- An operator of the language. -/
inductive Operator where
  | add
  | subtract
  | multiply
  | divide
  | modulo
  | power
  | average
  | maximum
  | minimum
  /-- Negation written with a minus. -/
  | minus
  /-- Negation written with a tilde. -/
  | tilde
  | factorial
  deriving DecidableEq

namespace Operator

/-- Every operator, once. -/
def all : List Operator :=
  [add, subtract, multiply, divide, modulo, power, average, maximum, minimum, minus, tilde,
    factorial]

theorem mem_all (op : Operator) : op ∈ all := by cases op <;> decide

def symbol : Operator → Char
  | add => '+'
  | subtract => '-'
  | multiply => '*'
  | divide => '/'
  | modulo => '%'
  | power => '^'
  | average => '@'
  | maximum => '$'
  | minimum => '&'
  | minus => '-'
  | tilde => '~'
  | factorial => '!'

def operation : Operator → Operation
  | add => .add
  | subtract => .subtract
  | multiply => .multiply
  | divide => .divide
  | modulo => .modulo
  | power => .power
  | average => .average
  | maximum => .maximum
  | minimum => .minimum
  | minus | tilde => .negate
  | factorial => .factorial

/-- The word for what the operator computes. -/
def name (op : Operator) : String :=
  match op.operation with
  | .add => "add"
  | .subtract => "subtract"
  | .multiply => "multiply"
  | .divide => "divide"
  | .modulo => "modulo"
  | .power => "power"
  | .average => "average"
  | .maximum => "maximum"
  | .minimum => "minimum"
  | .negate => "negate"
  | .factorial => "factorial"

def fixing : Operator → Fixing
  | minus | tilde => .before
  | factorial => .behind
  | _ => .between

/-- How tightly the operator binds; more is tighter. -/
def precedence : Operator → Nat
  | add | subtract => 1
  | multiply | divide | modulo => 2
  | power => 3
  | average | maximum | minimum => 4
  | minus | tilde => 5
  | factorial => 6

/-- Only powers, and the operators with a single operand, are grouped from the right. -/
def associativity : Operator → Associativity
  | power | minus | tilde | factorial => .right
  | _ => .left

/-- The number of operands. -/
def arity (op : Operator) : Nat :=
  match op.fixing with
  | .between => 2
  | .before | .behind => 1

/-- The least precedence that an operator may have inside the right operand: grouping from the
left leaves operators of the same precedence out of it. -/
def nextMinPrecedence (op : Operator) : Nat :=
  match op.associativity with
  | .left => op.precedence + 1
  | .right => op.precedence

/-- The operator with the given symbol at the given place. -/
def find? (symbol : Char) (fixing : Fixing) : Option Operator :=
  all.find? fun op => op.symbol == symbol && op.fixing == fixing

/-- Whether the character is the symbol of some operator. -/
def isSymbol (c : Char) : Bool := all.any fun op => op.symbol == c

/-- Symbol and place name the operator. -/
@[simp] theorem find?_symbol_fixing (op : Operator) : find? op.symbol op.fixing = some op := by
  cases op <;> decide

theorem eq_of_find? {symbol : Char} {fixing : Fixing} {op : Operator}
    (h : find? symbol fixing = some op) : op.symbol = symbol ∧ op.fixing = fixing := by
  simpa using List.find?_some h

end Operator

end Reckon
