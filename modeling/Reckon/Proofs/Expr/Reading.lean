import Reckon.Calculator
import Reckon.Proofs.Expr.Numbers
import Reckon.Proofs.Grammar.ReadableTokens
import Reckon.Proofs.Grammar.Sound

/-!
# What is read from a text

An expression that is read from a text stands for a grouped phrase of its tokens.  So every
operator in it has the operands that its place asks for, and every number in it is that of a
numeral in the text (`Expr.numerals_of_parse`): it has no sign and no positive exponent, and no more
digits than the text has characters.

Two errors can be reported of tokens and of expressions that are built by hand only: that the text
of a number token is no number, and that an operator has another number of operands than it takes.
Neither arises from a text (`avoids_evaluate`), and where an error names a character or a token, it
is not one that the scanner skips or that it never cuts.  The scanner, the reader and the evaluation
agree for different reasons: numerals are what the scanner cuts and what is read as a number; the
place in which the reader has looked an operator up is the place that decides between one operand
and two; and it is the operators between operands, and no others, whose operation takes two.
-/

namespace Reckon

variable {e : Expr} {p : Phrase} {op : Operator} {a b : Decimal} {limits : Limits} {source : String}

/-! ## The expression of a phrase -/

namespace Phrase

theorem wellFormed_expr (hp : p.Grouped) : p.expr.WellFormed := by
  induction p with
  | number => trivial
  | parenthesis inside ih => exact ih hp
  | before op operand ih => exact ⟨by rw [hp.1]; decide, ih hp.2.1⟩
  | behind operand op ih => exact ⟨by rw [hp.1]; decide, ih hp.2.1⟩
  | between left op right ihl ihr => exact ⟨hp.1, ihl hp.2.1, ihr hp.2.2.1⟩

/-- Numbers that are read from the tokens of a text are those of numerals in it. -/
theorem forallNumbers_expr {bound : ℕ} (hp : p.Grouped)
    (hread : ∀ t ∈ p.tokens, t.Readable ∧ t.text.toList.length ≤ bound) :
    p.expr.ForallNumbers fun d => ∃ text, Decimal.Numeral text d ∧ text.length ≤ bound := by
  induction p with
  | number literal value =>
      obtain ⟨⟨d, hd⟩, hlength⟩ := hread _ List.mem_cons_self
      have hvalue : Except.ok value = Except.ok d := hp.symm.trans (Decimal.read_of_numeral hd)
      cases hvalue
      exact ⟨_, hd, hlength⟩
  | parenthesis inside ih =>
      exact ih hp fun t ht => hread t (by simp [Phrase.tokens, ht])
  | before op operand ih =>
      exact ih hp.2.1 fun t ht => hread t (by simp [Phrase.tokens, ht])
  | behind operand op ih =>
      exact ih hp.2.1 fun t ht => hread t (by simp [Phrase.tokens, ht])
  | between left op right ihl ihr =>
      exact ⟨ihl hp.2.1 fun t ht => hread t (by simp [Phrase.tokens, ht]),
        ihr hp.2.2.1 fun t ht => hread t (by simp [Phrase.tokens, ht])⟩

end Phrase

namespace Expr

/-- An expression that is read from a text is well formed, keeps the depth limit, and its numbers
are those of numerals in the text. -/
theorem numerals_of_parse (h : parse limits source = .ok e) :
    e.WellFormed ∧ e.height ≤ limits.maxDepth ∧
      e.ForallNumbers fun d =>
        ∃ text, Decimal.Numeral text d ∧ text.length ≤ source.toList.length := by
  obtain ⟨tokens, hscan, h⟩ := Except.bind_eq_ok_iff.1 h
  rw [Except.mapError_eq_ok_iff] at hscan h
  obtain ⟨p, hp, rfl⟩ := exists_writes_of_ofTokens h
  have hnumbers := Phrase.forallNumbers_expr hp.grouped (Token.of_mem_scan hscan)
  have hwellFormed := Phrase.wellFormed_expr hp.grouped
  rw [hp.expr_eq] at hnumbers hwellFormed
  exact ⟨hwellFormed, hp.height_le, hnumbers⟩

/-- The numbers of a text of fewer than `2 ^ 31` characters are moderate. -/
theorem moderate_of_parse (h : parse limits source = .ok e)
    (hlength : source.toList.length < 2 ^ 31) : e.Moderate := by
  obtain ⟨-, -, hnumbers⟩ := numerals_of_parse h
  refine hnumbers.imp ?_
  rintro d ⟨text, hd, hle⟩
  obtain ⟨hdigits, hexponent⟩ := hd.length_le
  have hnonpos := hd.nonneg.2
  exact ⟨by omega, by omega, by omega⟩

end Expr

/-! ## Operators with the operands that they take -/

/-- Whether the error is that an operator stands at another number of operands than it takes. -/
def EvalError.IsArityMismatch : EvalError → Prop
  | arityMismatch .. => True
  | _ => False

open Except EvalError

namespace Operator

theorem not_isArityMismatch_ofFault (fault : ArithmeticFault) :
    ¬(ofFault op a b fault).IsArityMismatch := by
  cases fault <;> exact id

/-- An operator that stands between operands takes two. -/
theorem exists_binary? [Register] (hop : op.fixing = .between) :
    ∃ operation, op.operation.binary? = some operation := by
  cases op <;> first | exact ⟨_, rfl⟩ | cases hop

theorem avoids_applyBinary (hop : op.fixing = .between) :
    Avoids IsArityMismatch (op.applyBinary limits a b) := by
  obtain ⟨operation, hoperation⟩ := exists_binary? hop
  rw [applyBinary_of_binary? hoperation]
  apply Avoids.mapError
  intro fault _
  exact not_isArityMismatch_ofFault fault

theorem avoids_applyFactorial : Avoids IsArityMismatch (op.applyFactorial limits a) := by
  unfold applyFactorial
  split
  · exact avoids_error id
  · split
    · exact avoids_error id
    · split
      · apply Avoids.mapError
        intro fault _
        exact id
      · exact avoids_error id

theorem avoids_applyUnary (hop : op.fixing ≠ .between) :
    Avoids IsArityMismatch (op.applyUnary limits a) := by
  unfold applyUnary
  split
  · apply Avoids.mapError
    intro fault _
    exact id
  · exact avoids_applyFactorial
  · next hnegate hfactorial =>
    -- what is neither a negation nor a factorial stands between operands
    refine absurd ?_ hop
    cases op <;> first | rfl | exact absurd rfl hnegate | exact absurd rfl hfactorial

end Operator

theorem Expr.avoids_eval (he : e.WellFormed) : Avoids IsArityMismatch (e.eval limits) := by
  induction e with
  | number value => exact avoids_ok value
  | unary op operand ih =>
      apply (ih he.2).bind
      intro value _
      exact Operator.avoids_applyUnary he.1
  | binary op left right ihl ihr =>
      apply (ihl he.2.1).bind
      intro a _
      apply (ihr he.2.2).bind
      intro b _
      exact Operator.avoids_applyBinary he.1

/-! ## The main result -/

/-- Whether the error is one that no text brings about. -/
def CalcError.IsInternal : CalcError → Prop
  | scan e => Token.isBlank e.character
  | parse e => e.IsUnreadable
  | eval e => e.IsArityMismatch

open CalcError

theorem avoids_parse (limits : Limits) (source : String) :
    Avoids IsInternal (parse limits source) := by
  apply Avoids.bind
  · apply Avoids.mapError
    intro e he
    exact Token.not_isBlank_of_scanFrom he
  · intro tokens hscan
    rw [mapError_eq_ok_iff] at hscan
    apply Avoids.mapError
    apply Expr.avoids_ofTokens
    intro t ht
    exact (Token.of_mem_scan hscan t ht).1

theorem avoids_evaluate (limits : Limits) (source : String) :
    Avoids IsInternal (evaluate limits source) := by
  apply (avoids_parse limits source).bind
  intro e he
  apply Avoids.mapError
  exact Expr.avoids_eval (Expr.numerals_of_parse he).1

/-- No text makes the calculator report a number that cannot be read, or an operator at a wrong
number of operands; and what is read from a text has the operators where they belong, and numbers
without sign and without positive exponent. -/
theorem internal_errors_unreachable (limits : Limits) (source : String) :
    (∀ literal position,
      evaluate limits source ≠ .error (.parse (.invalidNumber literal position))) ∧
    (∀ op found, evaluate limits source ≠ .error (.eval (.arityMismatch op found))) ∧
    ∀ e, parse limits source = .ok e →
      e.WellFormed ∧ e.ForallNumbers fun d => 0 ≤ d.coefficient ∧ d.exponent ≤ 0 := by
  refine ⟨?_, ?_, ?_⟩
  · intro literal position h
    exact avoids_evaluate limits source _ h trivial
  · intro op found h
    exact avoids_evaluate limits source _ h trivial
  · intro e he
    obtain ⟨hwellFormed, -, hnumbers⟩ := Expr.numerals_of_parse he
    refine ⟨hwellFormed, hnumbers.imp ?_⟩
    rintro d ⟨text, hd, -⟩
    exact hd.nonneg

/-- The sign of a number is an operator, and the numbers that it stands between are read without
one. -/
theorem signs_are_operators :
    parse .default "-2.50!-~3" = .ok (.binary .subtract
        (.unary .factorial (.unary .minus (.number ⟨250, -2⟩))) (.unary .tilde (.number ⟨3, 0⟩))) ∧
      (Expr.binary .subtract (.unary .factorial (.unary .minus (.number ⟨250, -2⟩)))
        (.unary .tilde (.number ⟨3, 0⟩))).WellFormed ∧
      evaluate .default "-2.50!-~3" ≠ .error (.eval (.arityMismatch .minus 1)) := by
  have hread : parse .default "-2.50!-~3" = .ok (.binary .subtract
      (.unary .factorial (.unary .minus (.number ⟨250, -2⟩)))
      (.unary .tilde (.number ⟨3, 0⟩))) := by decide +kernel
  obtain ⟨-, harity, hparse⟩ := internal_errors_unreachable .default "-2.50!-~3"
  exact ⟨hread, (hparse _ hread).1, harity _ _⟩

end Reckon
