import Reckon.Proofs.Except
import Reckon.Proofs.Grammar.Phrase

/-!
# What is read is written by the grammar

At every moment the tokens that have been taken are made up of what is open: for each level the
tokens that opened it, among them a grouped left operand, and at the end the tokens of the operand
that is held (`Stage.Took`).  Taking one more token keeps this (`Stage.Took.feed`), so it holds
until the input ends, when nothing is open any more (`exists_grouped_of_run`).

The levels carry one more fact: the operator of a level has at least the precedence that the level
around it asks for.  That is what makes a completed operand fit as the right operand there.
-/

namespace Reckon

/-- The phrase is grouped and stands for the expression, and where it stands, at the given depth,
it keeps the limit. -/
structure Phrase.Writes (limit depth : ℕ) (p : Phrase) (e : Expr) : Prop where
  grouped : p.Grouped
  expr_eq : p.expr = e
  nesting_le : depth + p.nesting ≤ limit + 1
  height_le : e.height ≤ limit

/-- The tokens of operators in front of an operand, of which the innermost is the first. -/
def prefixTokens (waiting : List Operator) : List Token :=
  (waiting.map fun op => .symbol op.symbol).reverse

/-- The tokens open the levels. -/
inductive Opened (limit : ℕ) : List Level → List Token → Prop where
  | nil : Opened limit [] []
  | rightOperand {left : Subtree} {op : Operator} {levels : List Level} {tokens : List Token}
      {p : Phrase} (hlevels : Opened limit levels tokens)
      (hp : p.Writes limit (nesting levels) left.expr) (hfixing : op.fixing = .between)
      (hfits : p.FitsLeft op) (hle : minPrecedence levels ≤ op.precedence) :
      Opened limit (.rightOperand left op :: levels) (tokens ++ p.tokens ++ [.symbol op.symbol])
  | parenthesis {waiting : List Operator} {position : ℕ} {levels : List Level}
      {tokens : List Token} (hlevels : Opened limit levels tokens)
      (hwaiting : ∀ op ∈ waiting, op.fixing = .before) :
      Opened limit (.parenthesis waiting position :: levels)
        (tokens ++ prefixTokens waiting ++ [.leftParen])

/-- The stage is reached by taking the tokens, and lies within the limit. -/
def Stage.Took (limit : ℕ) : Stage → List Token → Prop
  | wanting waiting levels, tokens =>
    ∃ opening, Opened limit levels opening ∧ (∀ op ∈ waiting, op.fixing = .before) ∧
      nesting levels + waiting.length ≤ limit ∧ opening ++ prefixTokens waiting = tokens
  | holding operand levels, tokens =>
    ∃ (opening : List Token) (p : Phrase), Opened limit levels opening ∧
      p.Writes limit (nesting levels) operand.expr ∧ p.PrecedesPostfix ∧
      opening ++ p.tokens = tokens

variable {limit position precedence : ℕ} {operand result : Subtree} {levels rest : List Level}
  {waiting : List Operator} {opening tokens : List Token} {token : Token} {p : Phrase}
  {stage next : Stage} {e : Expr}

theorem nesting_rightOperand (left : Subtree) (op : Operator) (levels : List Level) :
    nesting (.rightOperand left op :: levels) = nesting levels + 1 :=
  rfl

theorem nesting_parenthesis (waiting : List Operator) (position : ℕ) (levels : List Level) :
    nesting (.parenthesis waiting position :: levels) = nesting levels + waiting.length + 1 :=
  rfl

/-! ## Applying operators -/

namespace Subtree

theorem of_unary {op : Operator} (h : unary limit position op operand = .ok result) :
    result.expr = .unary op operand.expr ∧ result.expr.height ≤ limit := by
  unfold unary at h
  split at h
  · next hle =>
    cases h
    rw [operand.height_eq] at hle
    exact ⟨rfl, hle⟩
  · cases h

theorem of_binary {op : Operator} {left : Subtree}
    (h : binary limit position op left operand = .ok result) :
    result.expr = .binary op left.expr operand.expr ∧ result.expr.height ≤ limit := by
  unfold binary at h
  split at h
  · next hle =>
    cases h
    rw [left.height_eq, operand.height_eq] at hle
    exact ⟨rfl, hle⟩
  · cases h

/-- Applying the operators in front of an operand gives an operand that may be written there. -/
theorem exists_writes_of_applyAll {depth : ℕ} (hwaiting : ∀ op ∈ waiting, op.fixing = .before)
    (hp : p.Writes limit (depth + waiting.length) operand.expr) (hfollows : p.FollowsPrefix)
    (h : applyAll limit position operand waiting = .ok result) :
    ∃ p' : Phrase, p'.Writes limit depth result.expr ∧ p'.FollowsPrefix ∧
      p'.tokens = prefixTokens waiting ++ p.tokens := by
  induction waiting generalizing operand p with
  | nil =>
      cases h
      exact ⟨p, hp, hfollows, rfl⟩
  | cons op waiting ih =>
      obtain ⟨applied, happlied, h⟩ := Except.bind_eq_ok_iff.1 h
      obtain ⟨hexpr, hheight⟩ := of_unary happlied
      have hnesting := hp.nesting_le
      rw [List.length_cons] at hnesting
      have hwrites : (Phrase.before op p).Writes limit (depth + waiting.length) applied.expr := {
        grouped := ⟨hwaiting op List.mem_cons_self, hp.grouped, hfollows⟩
        expr_eq := by rw [hexpr, ← hp.expr_eq]; rfl
        nesting_le := by simp only [Phrase.nesting]; omega
        height_le := hheight }
      obtain ⟨p', hp', hfollows', htokens⟩ :=
        ih (fun op' h' => hwaiting op' (List.mem_cons_of_mem _ h')) hwrites trivial h
      refine ⟨p', hp', hfollows', ?_⟩
      simp [htokens, prefixTokens, Phrase.tokens]

end Subtree

namespace Stage

theorem of_guardDepth (h : guardDepth limit position stage = .ok next) :
    stage = next ∧ stage.depth ≤ limit := by
  unfold guardDepth at h
  split at h
  · next hle =>
    cases h
    exact ⟨rfl, hle⟩
  · cases h

/-! ## Completing right operands -/

/-- A completed right operand makes the operator of its level an operand of the level around. -/
private theorem writes_between {left : Subtree} {op : Operator} {q : Phrase}
    (hq : q.Writes limit (nesting levels) left.expr) (hfixing : op.fixing = .between)
    (hfits : q.FitsLeft op)
    (hp : p.Writes limit (nesting (.rightOperand left op :: levels)) operand.expr)
    (hleast : p.AtLeast op.nextMinPrecedence)
    (h : Subtree.binary limit position op left operand = .ok result) :
    (Phrase.between q op p).Writes limit (nesting levels) result.expr := by
  obtain ⟨hexpr, hheight⟩ := Subtree.of_binary h
  have hleft := hq.nesting_le
  have hright := hp.nesting_le
  rw [nesting_rightOperand] at hright
  exact {
    grouped := ⟨hfixing, hq.grouped, hp.grouped, hfits, Phrase.fitsRight_iff.2 hleast⟩
    expr_eq := by rw [hexpr, ← hq.expr_eq, ← hp.expr_eq]; rfl
    nesting_le := by simp only [Phrase.nesting]; omega
    height_le := hheight }

/-- After settling, the operand may be the left operand of the operator, and the operator may
stand in the right operand of the level that is left. -/
theorem exists_writes_of_settle {op : Operator} (hlevels : Opened limit levels opening)
    (hp : p.Writes limit (nesting levels) operand.expr)
    (hleast : p.AtLeast (minPrecedence levels)) (hfits : p.FitsLeft op)
    (h : settle limit position op.precedence operand levels = .ok (result, rest)) :
    ∃ (opening' : List Token) (p' : Phrase), Opened limit rest opening' ∧
      p'.Writes limit (nesting rest) result.expr ∧ p'.FitsLeft op ∧
      minPrecedence rest ≤ op.precedence ∧ opening' ++ p'.tokens = opening ++ p.tokens := by
  induction hlevels generalizing operand p with
  | nil =>
      cases h
      exact ⟨_, p, .nil, hp, hfits, Nat.zero_le _, rfl⟩
  | parenthesis hlevels hwaiting =>
      cases h
      exact ⟨_, p, .parenthesis hlevels hwaiting, hp, hfits, Nat.zero_le _, rfl⟩
  | @rightOperand left inner levels tokens q hlevels hq hfixing hinner hle ih =>
      unfold settle at h
      split at h
      · -- the level is completed, and its phrase is the operand of the one around it
        next hlt =>
        obtain ⟨completed, hcompleted, h⟩ := Except.bind_eq_ok_iff.1 h
        have hwrites := writes_between hq hfixing hinner hp hleast hcompleted
        obtain ⟨opening', p', hopened, hp', hfits', hmin, htokens⟩ :=
          ih hwrites hle (Phrase.fitsLeft_between.2 hlt) h
        refine ⟨opening', p', hopened, hp', hfits', hmin, ?_⟩
        rw [htokens]
        simp [Phrase.tokens]
      · -- the level stays open, and the operator continues its right operand
        next hge =>
        cases h
        exact ⟨_, p, .rightOperand hlevels hq hfixing hinner hle, hp, hfits, Nat.not_lt.1 hge, rfl⟩

/-- What stands in front of an operand all of whose right operands have been completed: nothing, or
an open parenthesis. -/
def Surrounds (limit : ℕ) : Option (List Operator × ℕ × List Level) → List Token → Prop
  | none, tokens => tokens = []
  | some (waiting, _, levels), tokens =>
    ∃ opening, Opened limit levels opening ∧ (∀ op ∈ waiting, op.fixing = .before) ∧
      opening ++ prefixTokens waiting ++ [.leftParen] = tokens

/-- How deep the operand lies then. -/
def innerDepth : Option (List Operator × ℕ × List Level) → ℕ
  | none => 1
  | some (waiting, _, levels) => nesting levels + waiting.length + 1

theorem exists_writes_of_unwind {around : Option (List Operator × ℕ × List Level)}
    (hlevels : Opened limit levels opening) (hp : p.Writes limit (nesting levels) operand.expr)
    (hleast : p.AtLeast (minPrecedence levels))
    (h : unwind limit position operand levels = .ok (result, around)) :
    ∃ (front : List Token) (p' : Phrase), Surrounds limit around front ∧
      p'.Writes limit (innerDepth around) result.expr ∧
      front ++ p'.tokens = opening ++ p.tokens := by
  induction hlevels generalizing operand p with
  | nil =>
      cases h
      exact ⟨[], p, rfl, hp, rfl⟩
  | parenthesis hlevels hwaiting =>
      cases h
      rw [nesting_parenthesis] at hp
      exact ⟨_, p, ⟨_, hlevels, hwaiting, rfl⟩, hp, rfl⟩
  | @rightOperand left inner levels tokens q hlevels hq hfixing hinner hle ih =>
      obtain ⟨completed, hcompleted, h⟩ := Except.bind_eq_ok_iff.1 h
      have hwrites := writes_between hq hfixing hinner hp hleast hcompleted
      obtain ⟨front, p', hfront, hp', htokens⟩ := ih hwrites hle h
      refine ⟨front, p', hfront, hp', ?_⟩
      rw [htokens]
      simp [Phrase.tokens]

/-! ## Taking a token -/

theorem Took.feedWanting (htook : (wanting waiting levels).Took limit tokens)
    (h : feedWanting limit position token waiting levels = .ok next) :
    next.Took limit (tokens ++ [token]) := by
  obtain ⟨opening, hlevels, hwaiting, hdepth, rfl⟩ := htook
  unfold Stage.feedWanting at h
  split at h
  · next literal =>
    split at h
    · next value hread =>
      obtain ⟨applied, happlied, h⟩ := Except.bind_eq_ok_iff.1 h
      cases h
      have hnumber : (Phrase.number literal value).Writes limit
          (nesting levels + waiting.length) (Subtree.ofNumber value).expr :=
        ⟨hread, rfl, Nat.succ_le_succ hdepth, Nat.zero_le _⟩
      obtain ⟨p, hp, hfollows, htokens⟩ :=
        Subtree.exists_writes_of_applyAll hwaiting hnumber trivial happlied
      refine ⟨opening, p, hlevels, hp, hfollows.precedesPostfix, ?_⟩
      rw [htokens, List.append_assoc]
      rfl
    · cases h
  · obtain ⟨rfl, hle⟩ := of_guardDepth h
    exact ⟨_, .parenthesis hlevels hwaiting, by simp, hle, by simp [prefixTokens]⟩
  · split at h
    · next op hop =>
      obtain ⟨rfl, hfixing⟩ := Token.eq_symbol_of_operator? hop
      obtain ⟨rfl, hle⟩ := of_guardDepth h
      refine ⟨opening, hlevels, ?_, hle, by simp [prefixTokens]⟩
      intro op' hop'
      rcases List.mem_cons.1 hop' with rfl | hop'
      · exact hfixing
      · exact hwaiting op' hop'
    · cases h

theorem Took.feedClosing (hlevels : Opened limit levels opening)
    (hp : p.Writes limit (nesting levels) operand.expr) (hprecedes : p.PrecedesPostfix)
    (h : feedClosing limit position token operand levels = .ok next) :
    next.Took limit (opening ++ p.tokens ++ [token]) := by
  obtain ⟨⟨inside, around⟩, hunwind, hrest⟩ := Except.bind_eq_ok_iff.1 h
  obtain ⟨front, p', hfront, hp', htokens⟩ :=
    exists_writes_of_unwind hlevels hp (hprecedes.atLeast _) hunwind
  rw [← htokens]
  cases around with
  | none => cases hrest
  | some around =>
      obtain ⟨waiting, start, rest⟩ := around
      obtain ⟨opening', hlevels', hwaiting, rfl⟩ := hfront
      dsimp only at hrest
      split at hrest
      · next hclose =>
        subst hclose
        obtain ⟨applied, happlied, hnext⟩ := Except.bind_eq_ok_iff.1 hrest
        cases hnext
        have hnesting := hp'.nesting_le
        simp only [innerDepth] at hnesting
        -- the operators that were waiting in front of the parenthesis apply to all of it
        have hclosed : (Phrase.parenthesis p').Writes limit (nesting rest + waiting.length)
            inside.expr := {
          grouped := hp'.grouped
          expr_eq := hp'.expr_eq
          nesting_le := by simp only [Phrase.nesting]; omega
          height_le := hp'.height_le }
        obtain ⟨p'', hp'', hfollows, htokens'⟩ :=
          Subtree.exists_writes_of_applyAll hwaiting hclosed trivial happlied
        refine ⟨opening', p'', hlevels', hp'', hfollows.precedesPostfix, ?_⟩
        rw [htokens']
        simp [Phrase.tokens]
      · cases hrest

theorem Took.feedHolding (htook : (holding operand levels).Took limit tokens)
    (h : feedHolding limit position token operand levels = .ok next) :
    next.Took limit (tokens ++ [token]) := by
  obtain ⟨opening, p, hlevels, hp, hprecedes, rfl⟩ := htook
  unfold Stage.feedHolding at h
  split at h
  · next op hop =>
    obtain ⟨rfl, hfixing⟩ := Token.eq_symbol_of_operator? hop
    obtain ⟨applied, happlied, h⟩ := Except.bind_eq_ok_iff.1 h
    cases h
    obtain ⟨hexpr, hheight⟩ := Subtree.of_unary happlied
    have hbehind : (Phrase.behind p op).Writes limit (nesting levels) applied.expr := {
      grouped := ⟨hfixing, hp.grouped, hprecedes⟩
      expr_eq := by rw [hexpr, ← hp.expr_eq]; rfl
      nesting_le := hp.nesting_le
      height_le := hheight }
    exact ⟨opening, .behind p op, hlevels, hbehind, trivial, by simp [Phrase.tokens]⟩
  · next op _ hop =>
    obtain ⟨rfl, hfixing⟩ := Token.eq_symbol_of_operator? hop
    obtain ⟨⟨left, rest⟩, hsettle, h⟩ := Except.bind_eq_ok_iff.1 h
    obtain ⟨rfl, hle⟩ := of_guardDepth h
    obtain ⟨opening', p', hrest, hp', hfits, hmin, htokens⟩ :=
      exists_writes_of_settle hlevels hp (hprecedes.atLeast _) hprecedes.fitsLeft hsettle
    rw [← htokens]
    exact ⟨_, .rightOperand hrest hp' hfixing hfits hmin, by simp, hle, by simp [prefixTokens]⟩
  · exact feedClosing hlevels hp hprecedes h

/-- Taking a token is what the stage says it is. -/
theorem Took.feed (htook : stage.Took limit tokens)
    (h : stage.feed limit position token = .ok next) : next.Took limit (tokens ++ [token]) := by
  cases stage with
  | wanting waiting levels => exact htook.feedWanting h
  | holding operand levels => exact htook.feedHolding h

/-! ## Taking all tokens -/

theorem start_took (limits : Limits) : start.Took limits.maxDepth [] :=
  ⟨[], .nil, by simp, limits.maxDepth_pos, rfl⟩

theorem Took.finish (htook : stage.Took limit tokens) (h : stage.finish limit position = .ok e) :
    ∃ p : Phrase, p.Writes limit 1 e ∧ p.tokens = tokens := by
  cases stage with
  | wanting waiting levels => cases h
  | holding operand levels =>
      obtain ⟨opening, p, hlevels, hp, hprecedes, rfl⟩ := htook
      obtain ⟨⟨inside, around⟩, hunwind, h⟩ := Except.bind_eq_ok_iff.1 h
      obtain ⟨front, p', hfront, hp', htokens⟩ :=
        exists_writes_of_unwind hlevels hp (hprecedes.atLeast _) hunwind
      cases around with
      | some around => cases h
      | none =>
          cases h
          cases hfront
          exact ⟨p', hp', htokens⟩

/-- An expression that is read from a stage is written with all the tokens. -/
theorem Took.run {remaining : List Token} (htook : stage.Took limit tokens)
    (h : stage.run limit position remaining = .ok e) :
    ∃ p : Phrase, p.Writes limit 1 e ∧ p.tokens = tokens ++ remaining := by
  induction remaining generalizing stage tokens position with
  | nil =>
      rw [List.append_nil]
      exact htook.finish h
  | cons token remaining ih =>
      unfold Stage.run at h
      split at h
      · next next hnext =>
        rw [List.append_cons]
        exact ih (htook.feed hnext) h
      · cases h

end Stage

/-- What is read from tokens is written with them, and keeps the depth limit. -/
theorem Expr.exists_writes_of_ofTokens {limits : Limits} (h : ofTokens limits tokens = .ok e) :
    ∃ p : Phrase, p.Writes limits.maxDepth 1 e ∧ p.tokens = tokens := by
  cases tokens with
  | nil => cases h
  | cons token tokens => exact (Stage.start_took limits).run h

end Reckon
