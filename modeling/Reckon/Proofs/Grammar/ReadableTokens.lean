import Reckon.Proofs.Except
import Reckon.Proofs.Grammar.DepthLimit
import Reckon.Proofs.Grammar.Guards
import Reckon.Proofs.Token.Layout

/-!
# Tokens that are cut from a text can be read

The reader reports a number that is no decimal literal (`ParseError.invalidNumber`), but the
scanner cuts none: the text of every number token is a numeral (`Token.of_mem_scan`), and a numeral
is read (`Decimal.read_of_numeral`).  Nor does the reader report a token that no text has, since it
names only tokens that it has been given.  Few steps of the reader look at a token; the others
report nothing but that the depth limit is exceeded (`OnlyExceeds`), and for the run over the tokens
it is enough that the report does not arise in what it calls (`Except.Avoids.bind`).
-/

namespace Reckon

variable {limit position : ℕ} {operand : Subtree} {stage : Stage} {token : Token}
  {waiting : List Operator} {levels : List Level}

/-- Whether the error is that a number token cannot be read, or names a token that no text has. -/
def ParseError.IsUnreadable : ParseError → Prop
  | invalidNumber .. => True
  | unexpectedToken token _ | trailingToken token _ => ¬token.Readable
  | _ => False

open Except ParseError

/-! ## Taking tokens -/

namespace Stage

/-- Here the text of a number is read, and it is a numeral. -/
theorem avoids_feedWanting (htoken : token.Readable) :
    Avoids IsUnreadable (feedWanting limit position token waiting levels) := by
  unfold feedWanting
  split
  · next literal =>
    obtain ⟨d, hd⟩ := htoken
    rw [Decimal.read_of_numeral hd]
    apply ((Subtree.onlyExceeds_applyAll waiting).avoids id).bind
    intro applied _
    exact avoids_ok _
  · exact onlyExceeds_guardDepth.avoids id
  · split
    · exact onlyExceeds_guardDepth.avoids id
    · exact avoids_error (not_not_intro htoken)

theorem avoids_feedClosing (htoken : token.Readable) :
    Avoids IsUnreadable (feedClosing limit position token operand levels) := by
  apply ((onlyExceeds_unwind levels).avoids id).bind
  rintro ⟨inside, _ | ⟨waiting, start, rest⟩⟩ -
  · exact avoids_error (not_not_intro htoken)
  · dsimp only
    split
    · apply ((Subtree.onlyExceeds_applyAll waiting).avoids id).bind
      intro applied _
      exact avoids_ok _
    · exact avoids_error id

theorem avoids_feedHolding (htoken : token.Readable) :
    Avoids IsUnreadable (feedHolding limit position token operand levels) := by
  unfold feedHolding
  split
  · apply ((Subtree.onlyExceeds_unary _).avoids id).bind
    intro applied _
    exact avoids_ok _
  · apply ((onlyExceeds_settle _ levels).avoids id).bind
    intro settled _
    exact onlyExceeds_guardDepth.avoids id
  · exact avoids_feedClosing htoken

theorem avoids_feed (htoken : token.Readable) :
    Avoids IsUnreadable (stage.feed limit position token) := by
  cases stage with
  | wanting waiting levels => exact avoids_feedWanting htoken
  | holding operand levels => exact avoids_feedHolding htoken

theorem avoids_finish : Avoids IsUnreadable (stage.finish limit position) := by
  cases stage with
  | wanting waiting levels => exact avoids_error id
  | holding operand levels =>
      apply ((onlyExceeds_unwind levels).avoids id).bind
      rintro ⟨inside, _ | ⟨waiting, start, rest⟩⟩ -
      · exact avoids_ok _
      · exact avoids_error id

theorem avoids_run {tokens : List Token} (htokens : ∀ t ∈ tokens, t.Readable) :
    Avoids IsUnreadable (stage.run limit position tokens) := by
  induction tokens generalizing stage position with
  | nil => exact avoids_finish
  | cons token tokens ih =>
      rw [run_cons_eq_bind]
      apply (avoids_feed (htokens token List.mem_cons_self)).bind
      intro next _
      apply ih
      intro t ht
      exact htokens t (List.mem_cons_of_mem token ht)

end Stage

theorem Expr.avoids_ofTokens {limits : Limits} {tokens : List Token}
    (htokens : ∀ t ∈ tokens, t.Readable) : Avoids IsUnreadable (ofTokens limits tokens) := by
  cases tokens with
  | nil => exact avoids_error id
  | cons token tokens => exact Stage.avoids_run htokens

end Reckon
