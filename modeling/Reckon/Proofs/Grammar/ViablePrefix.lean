import Reckon.Proofs.Grammar.DepthRoom
import Reckon.Proofs.Grammar.Guards
import Reckon.Proofs.Grammar.OpenParentheses

/-!
# Errors stand at the first token that cannot go on

A list of tokens is viable when some tokens behind it make it an expression (`Viable`).  The reader
takes as many tokens as are viable together, and what it reports points at the first that is one too
many, or at the end of the input (`ParseError.Pinpoints`).

Both halves are about the stage that has been reached.  Whatever is open in it can be completed, an
operand that is wanted by a number and a parenthesis by closing it, so the tokens taken so far are
viable (`Stage.Took.viable`).  And a token that it refuses is refused under every larger limit, so
no tokens behind that one help (`Stage.not_viable_of_feed`).
-/

namespace Reckon

variable {limit position : ℕ} {limits : Limits} {operand : Subtree} {levels levels' : List Level}
  {waiting : List Operator} {opening taken tokens rest : List Token} {token : Token} {p : Phrase}
  {stage next : Stage} {e : ParseError}

/-- The tokens are read as an expression, under some depth limit. -/
def Accepted (tokens : List Token) : Prop :=
  ∃ (limits : Limits) (e : Expr), Expr.ofTokens limits tokens = .ok e

/-- The tokens are the beginning of an expression. -/
def Viable (tokens : List Token) : Prop := ∃ rest, Accepted (tokens ++ rest)

/-- The error points at the first token that cannot be taken, or at the end of the input, for the
reason that it gives. -/
def ParseError.Pinpoints (limits : Limits) (tokens : List Token) : ParseError → Prop
  | unexpectedToken token i =>
    tokens[i]? = some token ∧ Viable (tokens.take i) ∧ ¬Viable (tokens.take (i + 1))
  | trailingToken token i =>
    tokens[i]? = some token ∧ (∃ e, Expr.ofTokens limits (tokens.take i) = .ok e) ∧
      ¬Viable (tokens.take (i + 1))
  | unexpectedEnd i => i = tokens.length ∧ Viable tokens ∧ ¬Accepted tokens
  | unclosedParenthesis i =>
    tokens[i]? = some .leftParen ∧ ∃ j > i, (openParentheses (tokens.take j)).head? = some i ∧
      Viable (tokens.take j) ∧ (j = tokens.length ∨ ¬Viable (tokens.take (j + 1)))
  | invalidNumber literal i =>
    tokens[i]? = some (.number literal) ∧ ∃ e, Decimal.read literal = .error e
  | emptyInput | nestingTooDeep .. => False

/-! ## What is open can be completed -/

theorem accepted_of_grouped (hp : p.Grouped) : Accepted p.tokens := by
  obtain ⟨deep, hdeep⟩ : ∃ deep : Limits, deep.maxDepth = p.tokens.length + 1 :=
    ⟨{ Limits.default with maxDepth := p.tokens.length + 1, maxDepth_pos := Nat.succ_pos _ }, rfl⟩
  exact ⟨deep, p.expr, Expr.ofTokens_of_spells ⟨p, hp, rfl, rfl⟩ (by omega)⟩

/-- Operators may stand in front of an operand, as many as there are. -/
private theorem exists_prefixed (hwaiting : ∀ op ∈ waiting, op.fixing = .before) (hp : p.Grouped)
    (hfollows : p.FollowsPrefix) :
    ∃ p' : Phrase, p'.Grouped ∧ p'.FollowsPrefix ∧
      p'.tokens = prefixTokens waiting ++ p.tokens := by
  induction waiting generalizing p with
  | nil => exact ⟨p, hp, hfollows, rfl⟩
  | cons op waiting ih =>
      have hop := hwaiting op List.mem_cons_self
      obtain ⟨p', hp', hfollows', htokens⟩ := ih (p := .before op p)
        (fun op' h' => hwaiting op' (List.mem_cons_of_mem _ h')) ⟨hop, hp, hfollows⟩ trivial
      exact ⟨p', hp', hfollows', by simp [htokens, prefixTokens, Phrase.tokens]⟩

/-- With an operand inside them the levels are completed by closing their parentheses. -/
private theorem exists_completed (hlevels : Opened limit levels opening) (hp : p.Grouped)
    (hleast : p.AtLeast (minPrecedence levels)) :
    ∃ (closing : List Token) (p' : Phrase), p'.Grouped ∧
      p'.tokens = opening ++ p.tokens ++ closing := by
  induction hlevels generalizing p with
  | nil => exact ⟨[], p, hp, by simp⟩
  | rightOperand hlevels hq hfixing hfits hle ih =>
      obtain ⟨closing, p', hp', htokens⟩ :=
        ih (p := .between _ _ p) ⟨hfixing, hq.grouped, hp, hfits, Phrase.fitsRight_iff.2 hleast⟩ hle
      exact ⟨closing, p', hp', by simp [htokens, Phrase.tokens]⟩
  | parenthesis hlevels hwaiting ih =>
      obtain ⟨q, hq, hfollows, hqtokens⟩ :=
        exists_prefixed (p := .parenthesis p) hwaiting hp trivial
      obtain ⟨closing, p', hp', htokens⟩ := ih hq (hfollows.precedesPostfix.atLeast _)
      exact ⟨.rightParen :: closing, p', hp', by simp [htokens, hqtokens, Phrase.tokens]⟩

namespace Stage

/-- The tokens that have been taken are the beginning of an expression. -/
theorem Took.viable (htook : stage.Took limit tokens) : Viable tokens := by
  cases stage with
  | wanting waiting levels =>
      obtain ⟨opening, hlevels, hwaiting, -, rfl⟩ := htook
      have hzero : (Phrase.number "0" ⟨0, 0⟩).Grouped := rfl
      obtain ⟨p, hp, hfollows, hptokens⟩ := exists_prefixed hwaiting hzero trivial
      obtain ⟨closing, p', hp', htokens⟩ :=
        exists_completed hlevels hp (hfollows.precedesPostfix.atLeast _)
      refine ⟨.number "0" :: closing, ?_⟩
      have haccepted := accepted_of_grouped hp'
      rw [htokens, hptokens] at haccepted
      simpa [Phrase.tokens] using haccepted
  | holding operand levels =>
      obtain ⟨opening, p, hlevels, hp, hprecedes, rfl⟩ := htook
      obtain ⟨closing, p', hp', htokens⟩ :=
        exists_completed hlevels hp.grouped (hprecedes.atLeast _)
      exact ⟨closing, htokens ▸ accepted_of_grouped hp'⟩

/-! ## Where a reading fails -/

/-- A reading that fails has come to a token that is refused, or to an end that is. -/
theorem exists_refused (h : stage.run limit position tokens = .error e) :
    (∃ taken token rest next, tokens = taken ++ token :: rest ∧
      stage.after limit position taken = .ok next ∧
        next.feed limit (position + taken.length) token = .error e) ∨
    ∃ next, stage.after limit position tokens = .ok next ∧
      next.finish limit (position + tokens.length) = .error e := by
  induction tokens generalizing stage position with
  | nil => exact Or.inr ⟨stage, rfl, h⟩
  | cons token tokens ih =>
      cases hfeed : stage.feed limit position token with
      | error cause =>
          rw [run, hfeed] at h
          cases h
          exact Or.inl ⟨[], token, tokens, stage, rfl, rfl, hfeed⟩
      | ok next =>
          rw [run_cons hfeed] at h
          rcases ih h with
            ⟨taken, refused, rest, last, rfl, hlast, hrefused⟩ | ⟨last, hlast, hfinish⟩
          · refine Or.inl ⟨token :: taken, refused, rest, last, rfl, ?_, ?_⟩
            · rw [after_cons hfeed, hlast]
            · rwa [List.length_cons, Nat.add_comm taken.length 1, ← Nat.add_assoc]
          · refine Or.inr ⟨last, ?_, ?_⟩
            · rw [after_cons hfeed, hlast]
            · rwa [List.length_cons, Nat.add_comm tokens.length 1, ← Nat.add_assoc]

theorem run_eq_finish_of_after (h : stage.after limit position tokens = .ok next) :
    stage.run limit position tokens = next.finish limit (position + tokens.length) := by
  have happend := run_append limit position stage tokens []
  rwa [List.append_nil, h] at happend

end Stage

theorem Expr.ofTokens_eq_run (h : tokens ≠ []) :
    ofTokens limits tokens = Stage.start.run limits.maxDepth 0 tokens := by
  cases tokens with
  | nil => exact absurd rfl h
  | cons token tokens => rfl

/-! ## What a stage refuses -/

/-- What is reported where an operand is followed by no operator and by no closing parenthesis that
belongs to one that is open. -/
def Stage.cannotClose (token : Token) (position : ℕ) :
    Option (List Operator × ℕ × List Level) → ParseError
  | some (_, opening, _) => .unclosedParenthesis opening
  | none => .trailingToken token position

section Refused

variable (hdeep : ∀ limit position, e ≠ .nestingTooDeep limit position)
include hdeep

namespace Stage

/-- Where an operand is wanted, a token is refused because it is a number that cannot be read, or
because no operand begins with it. -/
theorem eq_of_feedWanting_eq_error
    (h : feedWanting limit position token waiting levels = .error e) :
    (∃ literal cause, token = .number literal ∧ Decimal.read literal = .error cause ∧
      e = .invalidNumber literal position) ∨ e = .unexpectedToken token position := by
  unfold feedWanting at h
  split at h
  · next literal =>
    split at h
    · obtain ⟨applied, -, h⟩ :=
        (Subtree.onlyExceeds_applyAll waiting).exists_of_bind_eq_error h hdeep
      cases h
    · next cause hread =>
      cases h
      exact Or.inl ⟨literal, cause, rfl, hread, rfl⟩
  · exact absurd (onlyExceeds_guardDepth e h) (hdeep _ _)
  · split at h
    · exact absurd (onlyExceeds_guardDepth e h) (hdeep _ _)
    · cases h
      exact Or.inr rfl

/-- Behind an operand, a token that is no operator is refused when it does not close a parenthesis
either: the innermost one that is open is reported, or the token when none is. -/
theorem eq_of_feedClosing_eq_error
    (h : feedClosing limit position token operand levels = .error e) :
    ∃ inside around, unwind limit position operand levels = .ok (inside, around) ∧
      e = cannotClose token position around := by
  obtain ⟨⟨inside, _ | ⟨waiting, opening, rest⟩⟩, hunwind, h⟩ :=
    (onlyExceeds_unwind levels).exists_of_bind_eq_error h hdeep
  · cases h
    exact ⟨inside, none, hunwind, rfl⟩
  · dsimp only at h
    split at h
    · obtain ⟨applied, -, h⟩ :=
        (Subtree.onlyExceeds_applyAll waiting).exists_of_bind_eq_error h hdeep
      cases h
    · cases h
      exact ⟨inside, _, hunwind, rfl⟩

theorem eq_of_feedHolding_eq_error
    (h : feedHolding limit position token operand levels = .error e) :
    ∃ inside around, unwind limit position operand levels = .ok (inside, around) ∧
      e = cannotClose token position around := by
  unfold feedHolding at h
  split at h
  · obtain ⟨applied, -, h⟩ := (Subtree.onlyExceeds_unary _).exists_of_bind_eq_error h hdeep
    cases h
  · obtain ⟨settled, -, h⟩ := (onlyExceeds_settle _ levels).exists_of_bind_eq_error h hdeep
    exact absurd (onlyExceeds_guardDepth e h) (hdeep _ _)
  · exact eq_of_feedClosing_eq_error hdeep h

/-- Where the input ends behind an operand, it is refused when a parenthesis is open. -/
theorem eq_of_finish_holding_eq_error
    (h : (holding operand levels).finish limit position = .error e) :
    ∃ inside waiting opening rest,
      unwind limit position operand levels = .ok (inside, some (waiting, opening, rest)) ∧
        e = .unclosedParenthesis opening := by
  obtain ⟨⟨inside, _ | ⟨waiting, opening, rest⟩⟩, hunwind, h⟩ :=
    (onlyExceeds_unwind levels).exists_of_bind_eq_error h hdeep
  · cases h
  · cases h
    exact ⟨inside, waiting, opening, rest, hunwind, rfl⟩

end Stage

/-! ## No tokens behind a refused one help -/

/-- What is refused for another reason than its depth is refused under every limit: both limits
withhold from one that is larger than either. -/
theorem not_accepted_of_error (h : Expr.ofTokens limits tokens = .error e) :
    ¬Accepted tokens := by
  rintro ⟨limits', read, hread⟩
  obtain ⟨larger, hlarger⟩ :
      ∃ larger : Limits, larger.maxDepth = limits.maxDepth + limits'.maxDepth :=
    ⟨{ limits with
        maxDepth := limits.maxDepth + limits'.maxDepth
        maxDepth_pos := Nat.add_pos_left limits.maxDepth_pos _ }, rfl⟩
  have hle : limits.maxDepth ≤ larger.maxDepth := by omega
  have hle' : limits'.maxDepth ≤ larger.maxDepth := by omega
  have hrefused : Expr.ofTokens larger tokens = .error e := by
    rcases Expr.withholds_ofTokens hle tokens with ⟨position, hexceeds⟩ | hsame
    · rw [h] at hexceeds
      exact absurd (Except.error.inj hexceeds) (hdeep _ _)
    · rw [← hsame, h]
  rcases Expr.withholds_ofTokens hle' tokens with ⟨position, hexceeds⟩ | hsame
  · rw [hread] at hexceeds
    cases hexceeds
  · rw [hread, hrefused] at hsame
    cases hsame

theorem Stage.not_viable_of_feed (hafter : start.after limits.maxDepth 0 taken = .ok stage)
    (hfeed : stage.feed limits.maxDepth taken.length token = .error e) :
    ¬Viable (taken ++ [token]) := by
  rintro ⟨rest, haccepted⟩
  have hrefused : Expr.ofTokens limits (taken ++ [token] ++ rest) = .error e := by
    rw [Expr.ofTokens_eq_run (by simp), List.append_assoc, run_append, hafter, Nat.zero_add]
    show stage.run limits.maxDepth taken.length (token :: rest) = .error e
    rw [run_cons_eq_bind, hfeed]
    rfl
  exact not_accepted_of_error hdeep hrefused haccepted

/-! ## Where the errors point -/

namespace Stage

omit hdeep in
/-- When a parenthesis is open, the one that is reported is the innermost. -/
theorem pinpoints_unclosedParenthesis {inside : Subtree} {opening : ℕ}
    (hafter : start.after limits.maxDepth 0 taken = .ok (holding operand levels))
    (hunwind : unwind limits.maxDepth position operand levels =
      .ok (inside, some (waiting, opening, levels')))
    (hend : rest = [] ∨ ¬Viable (taken ++ rest.take 1)) :
    (ParseError.unclosedParenthesis opening).Pinpoints limits (taken ++ rest) := by
  have hopen : openParentheses taken = opening :: openPositions levels' :=
    (openPositions_after hafter).symm.trans (openPositions_unwind hunwind).symm
  have hparen : taken[opening]? = some .leftParen :=
    getElem?_of_mem_openParentheses (hopen ▸ List.mem_cons_self)
  obtain ⟨hlt, -⟩ := List.getElem?_eq_some_iff.1 hparen
  refine ⟨by rwa [List.getElem?_append_left hlt], taken.length, hlt, ?_, ?_, ?_⟩
  · rw [List.take_left, hopen]
    rfl
  · rw [List.take_left]
    exact ((start_took limits).after hafter).viable
  · rw [List.take_length_add_append, List.length_append]
    exact hend.imp_left fun hrest => by rw [hrest]; rfl

theorem pinpoints_of_feed (hafter : start.after limits.maxDepth 0 taken = .ok stage)
    (hfeed : stage.feed limits.maxDepth taken.length token = .error e) :
    e.Pinpoints limits (taken ++ token :: rest) := by
  have hviable : Viable taken := ((start_took limits).after hafter).viable
  have hnot := not_viable_of_feed hdeep hafter hfeed
  have htoken : (taken ++ token :: rest)[taken.length]? = some token := by simp
  have htake : (taken ++ token :: rest).take taken.length = taken := List.take_left
  have htake' : (taken ++ token :: rest).take (taken.length + 1) = taken ++ [token] := by
    rw [List.take_length_add_append]
    rfl
  cases stage with
  | wanting waiting levels =>
      obtain ⟨literal, cause, rfl, hread, rfl⟩ | rfl := eq_of_feedWanting_eq_error hdeep hfeed
      · exact ⟨htoken, cause, hread⟩
      · exact ⟨htoken, by rwa [htake], by rwa [htake']⟩
  | holding operand levels =>
      obtain ⟨inside, _ | ⟨waiting, opening, around⟩, hunwind, rfl⟩ :=
        eq_of_feedHolding_eq_error hdeep hfeed
      · refine ⟨htoken, ⟨inside.expr, ?_⟩, by rwa [htake']⟩
        have hne : taken ≠ [] := by
          rintro rfl
          cases hafter
        rw [htake, Expr.ofTokens_eq_run hne, run_eq_finish_of_after hafter, Nat.zero_add, finish,
          hunwind]
        rfl
      · exact pinpoints_unclosedParenthesis hafter hunwind (Or.inr hnot)

theorem pinpoints_of_finish (hne : tokens ≠ [])
    (hafter : start.after limits.maxDepth 0 tokens = .ok stage)
    (hfinish : stage.finish limits.maxDepth tokens.length = .error e) :
    e.Pinpoints limits tokens := by
  cases stage with
  | wanting waiting levels =>
      cases hfinish
      have hrefused : Expr.ofTokens limits tokens = .error (.unexpectedEnd tokens.length) := by
        rw [Expr.ofTokens_eq_run hne, run_eq_finish_of_after hafter, Nat.zero_add]
        rfl
      exact ⟨rfl, ((start_took limits).after hafter).viable, not_accepted_of_error hdeep hrefused⟩
  | holding operand levels =>
      obtain ⟨inside, waiting, opening, around, hunwind, rfl⟩ :=
        eq_of_finish_holding_eq_error hdeep hfinish
      have hpinpoints : (ParseError.unclosedParenthesis opening).Pinpoints limits (tokens ++ []) :=
        pinpoints_unclosedParenthesis hafter hunwind (Or.inl rfl)
      rwa [List.append_nil] at hpinpoints

end Stage

end Refused

/-! ## The main result -/

namespace Expr

/-- Tokens that form no expression are refused at the first one that cannot go on, or at the end of
the input, unless the depth limit is in the way. -/
theorem ofTokens_error_pinpoints (hne : tokens ≠ []) (hroom : tokens.length < limits.maxDepth)
    (h : ofTokens limits tokens = .error e) : e.Pinpoints limits tokens := by
  have hdeep : ∀ limit position, e ≠ .nestingTooDeep limit position := by
    have hunguarded := unguarded_ofTokens hroom
    rwa [h] at hunguarded
  rw [ofTokens_eq_run hne] at h
  obtain ⟨taken, token, rest, stage, rfl, hafter, hfeed⟩ | ⟨stage, hafter, hfinish⟩ :=
    Stage.exists_refused h
  · rw [Nat.zero_add] at hfeed
    exact Stage.pinpoints_of_feed hdeep hafter hfeed
  · rw [Nat.zero_add] at hfinish
    exact Stage.pinpoints_of_finish hdeep hne hafter hfinish

/-- The second of two numbers in a row is one too many, and the parenthesis around them is
reported. -/
theorem two_numbers_in_parentheses :
    ofTokens .default [.leftParen, .number "2", .number "3", .rightParen] =
        .error (.unclosedParenthesis 0) ∧
      (ParseError.unclosedParenthesis 0).Pinpoints .default
        [.leftParen, .number "2", .number "3", .rightParen] :=
  ⟨by decide, ofTokens_error_pinpoints (by decide) (by decide) (by decide)⟩

end Expr

end Reckon
