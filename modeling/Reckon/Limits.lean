/-!
# Limits

Every evaluation is held to three limits: how many significant digits a result keeps, how far its
exponent may go, and how deeply an expression may nest.  A `Limits` value carries the proof that
each of them lies in its range, so nothing that takes one has to check again.  The setters
`withPrecision`, `withMaxExponent` and `withMaxDepth` are the only way to other values than the
defaults, and each refuses exactly the values outside its range.
-/

namespace Reckon

/-- The most significant digits that a result may be asked to keep. -/
def largestPrecision : Nat := 1000000

/-- The farthest that the exponent range may be set to reach. -/
def largestMaxExponent : Int := 999999999999999999

/-- The limits that an evaluation is held to. -/
structure Limits where
  /-- The number of significant digits that results are rounded to. -/
  precision : Nat
  /-- The largest adjusted exponent that a result may have, and its opposite the least. -/
  maxExponent : Int
  /-- The deepest nesting, and the tallest expression, that is read. -/
  maxDepth : Nat
  precision_pos : 0 < precision
  precision_le : precision ≤ largestPrecision
  maxExponent_pos : 0 < maxExponent
  maxExponent_le : maxExponent ≤ largestMaxExponent
  maxDepth_pos : 0 < maxDepth
  deriving DecidableEq

/-- Why a limit was refused. -/
inductive LimitsError where
  /-- The precision is zero or too large. -/
  | precision (given : Nat)
  /-- The exponent range is empty or too wide. -/
  | maxExponent (given : Int)
  /-- The depth is zero. -/
  | maxDepth
  deriving DecidableEq

/-- The wording of a refused limit. -/
def LimitsError.message : LimitsError → String
  | precision given =>
    s!"precision must be between 1 and {largestPrecision} digits, got {given}"
  | maxExponent given =>
    s!"maximum exponent must be between 1 and {largestMaxExponent}, got {given}"
  | maxDepth => "maximum nesting depth must be at least 1"

namespace Limits

/-- Twenty-eight digits, exponents of up to six digits, and 512 levels of nesting. -/
protected def default : Limits where
  precision := 28
  maxExponent := 999999
  maxDepth := 512
  precision_pos := by decide
  precision_le := by decide
  maxExponent_pos := by decide
  maxExponent_le := by decide
  maxDepth_pos := by decide

instance : Inhabited Limits := ⟨Limits.default⟩

/-- The same limits with another number of significant digits. -/
def withPrecision (limits : Limits) (digits : Nat) : Except LimitsError Limits :=
  if h : 0 < digits ∧ digits ≤ largestPrecision then
    .ok { limits with precision := digits, precision_pos := h.1, precision_le := h.2 }
  else .error (.precision digits)

/-- The same limits with another exponent range. -/
def withMaxExponent (limits : Limits) (exponent : Int) : Except LimitsError Limits :=
  if h : 0 < exponent ∧ exponent ≤ largestMaxExponent then
    .ok { limits with maxExponent := exponent, maxExponent_pos := h.1, maxExponent_le := h.2 }
  else .error (.maxExponent exponent)

/-- The same limits with another depth of nesting. -/
def withMaxDepth (limits : Limits) (depth : Nat) : Except LimitsError Limits :=
  if h : 0 < depth then .ok { limits with maxDepth := depth, maxDepth_pos := h }
  else .error .maxDepth

theorem withPrecision_eq_error_iff {limits : Limits} {digits : Nat} {e : LimitsError} :
    limits.withPrecision digits = .error e ↔
      ¬(0 < digits ∧ digits ≤ largestPrecision) ∧ e = .precision digits := by
  unfold withPrecision
  split <;> simp_all [eq_comm]

theorem withMaxExponent_eq_error_iff {limits : Limits} {exponent : Int} {e : LimitsError} :
    limits.withMaxExponent exponent = .error e ↔
      ¬(0 < exponent ∧ exponent ≤ largestMaxExponent) ∧ e = .maxExponent exponent := by
  unfold withMaxExponent
  split <;> simp_all [eq_comm]

theorem withMaxDepth_eq_error_iff {limits : Limits} {depth : Nat} {e : LimitsError} :
    limits.withMaxDepth depth = .error e ↔ ¬0 < depth ∧ e = .maxDepth := by
  unfold withMaxDepth
  split <;> simp_all [eq_comm]

end Limits

end Reckon
