import Reckon.Proofs.Grammar.Complete
import Reckon.Proofs.Grammar.DepthLimit

/-!
# The depth limit is exact

A grouped phrase is read exactly when the limit is at least the height of its expression and at
least its nesting; otherwise the reader reports that the limit is exceeded.  And whatever the
tokens are, the reader is never deeper than the limit, however far it has come.

That the two bounds suffice is `Expr.ofTokens_phrase`.  For the other direction the phrase is
followed from its front: reading it reports that the limit is exceeded, or gets past it, and then
its nesting is within the limit (`Stage.PassesOrExceeds`).  The steps on the way are those of
`Stage.readsPast`.  Under a larger limit they are certain to succeed, so under this one they succeed
or report that the limit is exceeded (`Stage.withholds_run_cons`).  The height of what comes out
needs no such argument: what is read at all keeps the limit (`Expr.exists_writes_of_ofTokens`).
-/

namespace Reckon

variable {limit position : ℕ} {op : Operator} {levels : List Level} {waiting : List Operator}
  {rest tokens : List Token} {token : Token} {p : Phrase} {e left : Expr} {stage next : Stage}

/-- The result is that the depth limit is exceeded. -/
def Exceeds {α : Type*} (limit : ℕ) (result : Except ParseError α) : Prop :=
  ∃ position, result = .error (.nestingTooDeep limit position)

namespace Stage

open Subtree

/-! ## One step -/

/-- A step that succeeds under a larger limit goes on under this one, or exceeds it. -/
theorem withholds_run_cons {limit' : ℕ} (rest : List Token) (h : limit ≤ limit')
    (hfeed : stage.feed limit' position token = .ok next) :
    Exceeds limit (stage.run limit position (token :: rest)) ∨
      stage.feed limit position token = .ok next ∧
        stage.run limit position (token :: rest) = next.run limit (position + 1) rest := by
  have hwithholds : Withholds limit (stage.feed limit position token)
      (stage.feed limit' position token) := withholds_feed h
  rcases hwithholds with ⟨start, hexceeds⟩ | hsame
  · left
    refine ⟨start, ?_⟩
    rw [run, hexceeds]
  · right
    rw [hfeed] at hsame
    exact ⟨hsame, run_cons hsame⟩

/-- A step that opens a level goes on if the level lies within the limit, and exceeds it
otherwise. -/
theorem run_cons_of_guardDepth {opened : Stage} (rest : List Token)
    (hfeed : stage.feed limit position token = guardDepth limit (position + 1) opened) :
    Exceeds limit (stage.run limit position (token :: rest)) ∨
      opened.depth ≤ limit ∧
        stage.run limit position (token :: rest) = opened.run limit (position + 1) rest := by
  by_cases hdepth : opened.depth ≤ limit
  · right
    refine ⟨hdepth, run_cons ?_⟩
    rw [hfeed, guardDepth_of_le hdepth]
  · left
    refine ⟨position + 1, ?_⟩
    rw [run, hfeed, guardDepth, if_neg hdepth]

/-- Where an operand is wanted next, a level may have been opened, and it keeps the limit. -/
theorem depth_le_of_feed_wanting
    (h : stage.feed limit position token = .ok (wanting waiting levels)) :
    (wanting waiting levels).depth ≤ limit := by
  cases stage with
  | wanting before outer =>
      simp only [feed, feedWanting] at h
      split at h
      · split at h
        · obtain ⟨applied, -, h⟩ := Except.bind_eq_ok_iff.1 h
          cases h
        · cases h
      · obtain ⟨heq, hle⟩ := of_guardDepth h
        rwa [heq] at hle
      · split at h
        · obtain ⟨heq, hle⟩ := of_guardDepth h
          rwa [heq] at hle
        · cases h
  | holding operand outer =>
      simp only [feed, feedHolding] at h
      split at h
      · obtain ⟨applied, -, h⟩ := Except.bind_eq_ok_iff.1 h
        cases h
      · obtain ⟨settled, -, h⟩ := Except.bind_eq_ok_iff.1 h
        obtain ⟨heq, hle⟩ := of_guardDepth h
        rwa [heq] at hle
      · -- a closing parenthesis leaves an operand behind
        obtain ⟨⟨inside, around⟩, -, h⟩ := Except.bind_eq_ok_iff.1 h
        cases around with
        | none => cases h
        | some around =>
            dsimp only at h
            split at h
            · obtain ⟨applied, -, h⟩ := Except.bind_eq_ok_iff.1 h
              cases h
            · cases h

/-! ## Following a phrase -/

/-- Reading the phrase exceeds the limit, or gets past it, and then its nesting keeps the limit. -/
def PassesOrExceeds (limit : ℕ) (p : Phrase) : Prop :=
  ∀ (position : ℕ) (waiting : List Operator) (levels : List Level) (rest : List Token),
    waiting = [] ∨ p.FollowsPrefix → p.AtLeast (minPrecedence levels) →
    nesting levels + waiting.length ≤ limit →
    Exceeds limit (run limit position (wanting waiting levels) (p.tokens ++ rest)) ∨
      nesting levels + waiting.length + p.nesting ≤ limit + 1 ∧
        run limit position (wanting waiting levels) (p.tokens ++ rest) =
          run limit (position + p.tokens.length)
            (holding (of (prefixed p.lastOperand waiting)) (p.pending ++ levels)) rest

theorem passesOrExceeds_number {literal : String} {value : Decimal}
    (hread : Decimal.read literal = .ok value) :
    PassesOrExceeds limit (.number literal value) := by
  intro position waiting levels rest _ _ hdepth
  right
  refine ⟨Nat.succ_le_succ hdepth, ?_⟩
  exact run_cons (feed_number hread (by omega))

theorem PassesOrExceeds.parenthesis {inside : Phrase} (h : PassesOrExceeds limit inside) :
    PassesOrExceeds limit (.parenthesis inside) := by
  intro position waiting levels rest _ _ _
  have htokens : (Phrase.parenthesis inside).tokens ++ rest =
      .leftParen :: (inside.tokens ++ .rightParen :: rest) := by simp [Phrase.tokens]
  have hend : position + 1 + inside.tokens.length + 1 =
      position + (Phrase.parenthesis inside).tokens.length := by
    simp only [Phrase.tokens, List.length_cons, List.length_append, List.length_nil]
    omega
  rw [htokens, ← hend]
  rcases run_cons_of_guardDepth (inside.tokens ++ .rightParen :: rest)
      (show (wanting waiting levels).feed limit position .leftParen = _ from rfl) with
    hexceeds | ⟨hopened, hrun⟩
  · exact Or.inl hexceeds
  rw [hrun]
  rcases h (position + 1) [] (.parenthesis waiting position :: levels) (.rightParen :: rest)
      (Or.inl rfl) inside.atLeast_zero hopened with hexceeds | ⟨hnesting, hrun⟩
  · exact Or.inl hexceeds
  rw [hrun]
  -- the height of the inside may be too large for what is in front of the parenthesis
  have hclose : feed (limit + inside.expr.height + waiting.length)
      (position + 1 + inside.tokens.length) .rightParen
      (holding (of inside.lastOperand)
        (inside.pending ++ .parenthesis waiting position :: levels)) =
        .ok (holding (of (prefixed inside.expr waiting)) levels) :=
    feed_rightParen (by omega)
  have hle : limit ≤ limit + inside.expr.height + waiting.length := by omega
  rcases withholds_run_cons rest hle hclose with hexceeds | ⟨-, hrun⟩
  · exact Or.inl hexceeds
  · right
    refine ⟨?_, hrun⟩
    simp only [nesting_parenthesis, List.length_nil, Phrase.nesting] at hnesting ⊢
    omega

theorem PassesOrExceeds.before {operand : Phrase} (hfixing : op.fixing = .before)
    (hfollows : operand.FollowsPrefix) (h : PassesOrExceeds limit operand) :
    PassesOrExceeds limit (.before op operand) := by
  intro position waiting levels rest _ _ _
  have hprecedes := hfollows.precedesPostfix
  have hop : (Token.symbol op.symbol).operator? .before = some op :=
    hfixing ▸ Operator.find?_symbol_fixing op
  have hfeed : (wanting waiting levels).feed limit position (.symbol op.symbol) =
      guardDepth limit (position + 1) (wanting (op :: waiting) levels) := by
    simp only [feed, feedWanting, hop]
  have hend : position + 1 + operand.tokens.length =
      position + (Phrase.before op operand).tokens.length := by
    simp only [Phrase.tokens, List.length_cons]
    omega
  rw [← hend]
  rcases run_cons_of_guardDepth (operand.tokens ++ rest) hfeed with
    hexceeds | ⟨hopened, hrun⟩
  · exact Or.inl hexceeds
  rcases h (position + 1) (op :: waiting) levels rest (Or.inr hfollows) (hprecedes.atLeast _)
      hopened with hexceeds | ⟨hnesting, hrun'⟩
  · left
    rw [← hrun] at hexceeds
    exact hexceeds
  · right
    constructor
    · rw [List.length_cons] at hnesting
      simp only [Phrase.nesting]
      omega
    · refine (hrun.trans hrun').trans ?_
      rw [hprecedes.lastOperand_eq, hprecedes.pending_eq]
      rfl

theorem PassesOrExceeds.behind {operand : Phrase} (hfixing : op.fixing = .behind)
    (hprecedes : operand.PrecedesPostfix) (h : PassesOrExceeds limit operand) :
    PassesOrExceeds limit (.behind operand op) := by
  intro position waiting levels rest hwaiting _ hdepth
  obtain rfl : waiting = [] := hwaiting.resolve_right id
  have htokens : (Phrase.behind operand op).tokens ++ rest =
      operand.tokens ++ .symbol op.symbol :: rest := by simp [Phrase.tokens]
  have hend : position + operand.tokens.length + 1 =
      position + (Phrase.behind operand op).tokens.length := by
    simp only [Phrase.tokens, List.length_append, List.length_cons, List.length_nil]
    omega
  rw [htokens, ← hend]
  rcases h position [] levels (.symbol op.symbol :: rest) (Or.inl rfl) (hprecedes.atLeast _)
      hdepth with hexceeds | ⟨hnesting, hrun⟩
  · exact Or.inl hexceeds
  rw [hrun, hprecedes.lastOperand_eq, hprecedes.pending_eq]
  have happly : feed (limit + (Expr.unary op operand.expr).height)
      (position + operand.tokens.length) (.symbol op.symbol)
      (holding (of operand.expr) levels) = .ok (holding (of (.unary op operand.expr)) levels) :=
    feed_behind hfixing (by omega)
  rcases withholds_run_cons rest (Nat.le_add_right _ _) happly with hexceeds | ⟨-, hrun⟩
  · exact Or.inl hexceeds
  · exact Or.inr ⟨hnesting, hrun⟩

theorem PassesOrExceeds.between {left right : Phrase}
    (hp : (Phrase.between left op right).Grouped) (hleft : PassesOrExceeds limit left)
    (hright : PassesOrExceeds limit right) : PassesOrExceeds limit (.between left op right) := by
  intro position waiting levels rest hwaiting hleast hdepth
  obtain ⟨hfixing, hgrouped, -, hfitsLeft, hfitsRight⟩ := hp
  obtain rfl : waiting = [] := hwaiting.resolve_right id
  have htokens : (Phrase.between left op right).tokens ++ rest =
      left.tokens ++ .symbol op.symbol :: (right.tokens ++ rest) := by simp [Phrase.tokens]
  have hend : position + left.tokens.length + 1 + right.tokens.length =
      position + (Phrase.between left op right).tokens.length := by
    simp only [Phrase.tokens, List.length_append, List.length_cons]
    omega
  rw [htokens, ← hend]
  rcases hleft position [] levels (.symbol op.symbol :: (right.tokens ++ rest)) (Or.inl rfl)
      (hfitsLeft.atLeast hleast) hdepth with hexceeds | ⟨hnestingLeft, hrun⟩
  · exact Or.inl hexceeds
  rw [hrun, show prefixed left.lastOperand [] = left.lastOperand from rfl]
  -- the operator completes the left operand, whose height may be too large
  have hopen : feed (limit + left.expr.height + nesting (.rightOperand (of left.expr) op :: levels))
      (position + left.tokens.length) (.symbol op.symbol)
      (holding (of left.lastOperand) (left.pending ++ levels)) =
        .ok (wanting [] (.rightOperand (of left.expr) op :: levels)) :=
    feed_between hgrouped hfixing hfitsLeft hleast (by omega) (by omega)
  have hle : limit ≤
      limit + left.expr.height + nesting (.rightOperand (of left.expr) op :: levels) := by omega
  rcases withholds_run_cons (right.tokens ++ rest) hle hopen with
    hexceeds | ⟨hfeed, hrun⟩
  · exact Or.inl hexceeds
  rw [hrun]
  have hopened := depth_le_of_feed_wanting hfeed
  rcases hright (position + left.tokens.length + 1) []
      (.rightOperand (of left.expr) op :: levels) rest (Or.inl rfl)
      (Phrase.fitsRight_iff.1 hfitsRight) hopened with hexceeds | ⟨hnestingRight, hrun⟩
  · exact Or.inl hexceeds
  · right
    constructor
    · simp only [nesting_rightOperand, List.length_nil, Phrase.nesting]
        at hnestingRight hnestingLeft ⊢
      omega
    · rw [hrun, Phrase.pending, List.append_assoc]
      rfl

/-- Every grouped phrase is got past, or exceeds the limit. -/
theorem passesOrExceeds (hp : p.Grouped) : PassesOrExceeds limit p := by
  induction p with
  | number literal value => exact passesOrExceeds_number hp
  | parenthesis inside ih => exact .parenthesis (ih hp)
  | before op operand ih => exact .before hp.1 hp.2.2 (ih hp.2.1)
  | behind operand op ih => exact .behind hp.1 hp.2.2 (ih hp.2.1)
  | between left op right ihl ihr => exact .between hp (ihl hp.2.1) (ihr hp.2.2.1)

/-! ## The stages on the way -/

/-- The stage that is reached when all the tokens have been taken, the first of them at the given
position. -/
def after (limit : ℕ) : ℕ → Stage → List Token → Except ParseError Stage
  | _, stage, [] => .ok stage
  | position, stage, token :: tokens =>
    (stage.feed limit position token).bind fun next => next.after limit (position + 1) tokens

theorem after_cons (hfeed : stage.feed limit position token = .ok next) (tokens : List Token) :
    stage.after limit position (token :: tokens) = next.after limit (position + 1) tokens := by
  rw [after, hfeed]
  rfl

/-- Reading goes through the stages that are reached on the way. -/
theorem run_append (limit position : ℕ) (stage : Stage) (tokens rest : List Token) :
    stage.run limit position (tokens ++ rest) =
      (stage.after limit position tokens).bind fun next =>
        next.run limit (position + tokens.length) rest := by
  induction tokens generalizing stage position with
  | nil => rfl
  | cons token tokens ih =>
      rw [List.cons_append, run_cons_eq_bind, after]
      cases stage.feed limit position token with
      | error e => rfl
      | ok next =>
          simp only [Except.bind, ih, List.length_cons]
          rw [show position + 1 + tokens.length = position + (tokens.length + 1) by omega]

theorem Took.depth_le (htook : stage.Took limit tokens) : stage.depth ≤ limit := by
  cases stage with
  | wanting waiting levels =>
      obtain ⟨-, -, -, hdepth, -⟩ := htook
      exact hdepth
  | holding operand levels =>
      obtain ⟨-, p, -, hp, -, -⟩ := htook
      have hnesting := hp.nesting_le
      have hpos := p.nesting_pos
      show nesting levels ≤ limit
      omega

theorem Took.after {more : List Token} (htook : stage.Took limit tokens)
    (h : stage.after limit position more = .ok next) : next.Took limit (tokens ++ more) := by
  induction more generalizing stage tokens position with
  | nil =>
      cases h
      rwa [List.append_nil]
  | cons token more ih =>
      obtain ⟨taken, htaken, h⟩ := Except.bind_eq_ok_iff.1 h
      rw [List.append_cons]
      exact ih (htook.feed htaken) h

end Stage

/-! ## The main result -/

namespace Expr

variable {limits : Limits}

/-- A grouped phrase is read as its expression, or exceeds the limit. -/
theorem ofTokens_phrase_cases (hp : p.Grouped) :
    Exceeds limits.maxDepth (ofTokens limits p.tokens) ∨ ofTokens limits p.tokens = .ok p.expr := by
  have hheight := p.height_lt_length
  have hnesting := p.nesting_le_length
  obtain ⟨deep, hle, hdeep⟩ : ∃ deep : Limits, limits.maxDepth ≤ deep.maxDepth ∧
      p.tokens.length ≤ deep.maxDepth :=
    ⟨{ limits with
        maxDepth := limits.maxDepth + p.tokens.length,
        maxDepth_pos := Nat.add_pos_left limits.maxDepth_pos _ },
      Nat.le_add_right _ _, Nat.le_add_left _ _⟩
  rcases withholds_ofTokens hle p.tokens with hexceeds | hsame
  · exact Or.inl hexceeds
  · right
    rw [hsame]
    exact ofTokens_phrase hp (by omega) (by omega)

/-- A phrase that is nested too deeply exceeds the limit. -/
theorem exceeds_of_lt_nesting (hp : p.Grouped) (h : limits.maxDepth < p.nesting) :
    Exceeds limits.maxDepth (ofTokens limits p.tokens) := by
  have hpasses := Stage.passesOrExceeds hp 0 [] [] [] (Or.inl rfl) p.atLeast_zero
    limits.maxDepth_pos
  rw [List.append_nil] at hpasses
  have hlength := p.height_lt_length
  have hrun : ofTokens limits p.tokens = Stage.start.run limits.maxDepth 0 p.tokens := by
    unfold ofTokens
    split
    · next hnil =>
      rw [hnil] at hlength
      exact absurd hlength (Nat.not_lt_zero _)
    · rfl
  rw [hrun]
  rcases hpasses with hexceeds | ⟨hnesting, -⟩
  · exact hexceeds
  · simp only [nesting, List.length_nil] at hnesting
    omega

/-- A phrase of the grammar is read as its expression exactly when the height of the expression and
the nesting of the phrase keep the depth limit, and otherwise the limit is reported as exceeded.
No expression that is read is higher than the limit, and at no moment, whatever tokens have been
taken, is the reader deeper than the limit. -/
theorem depth_limit_exact (limits : Limits) :
    (∀ p : Phrase, p.Grouped →
      (ofTokens limits p.tokens = .ok p.expr ↔
        p.expr.height ≤ limits.maxDepth ∧ p.nesting ≤ limits.maxDepth) ∧
      (¬ (p.expr.height ≤ limits.maxDepth ∧ p.nesting ≤ limits.maxDepth) →
        ∃ position,
          ofTokens limits p.tokens = .error (.nestingTooDeep limits.maxDepth position))) ∧
    (∀ (tokens : List Token) (e : Expr),
      ofTokens limits tokens = .ok e → e.height ≤ limits.maxDepth) ∧
    ∀ (taken : List Token) (stage : Stage),
      Stage.start.after limits.maxDepth 0 taken = .ok stage → stage.depth ≤ limits.maxDepth := by
  have hheight : ∀ (tokens : List Token) (e : Expr),
      ofTokens limits tokens = .ok e → e.height ≤ limits.maxDepth := by
    intro tokens e h
    obtain ⟨p, hp, -⟩ := exists_writes_of_ofTokens h
    exact hp.height_le
  have hnecessary : ∀ p : Phrase, p.Grouped → ofTokens limits p.tokens = .ok p.expr →
      p.expr.height ≤ limits.maxDepth ∧ p.nesting ≤ limits.maxDepth := by
    intro p hp h
    refine ⟨hheight _ _ h, not_lt.1 fun hdeep => ?_⟩
    obtain ⟨position, hexceeds⟩ := exceeds_of_lt_nesting hp hdeep
    rw [h] at hexceeds
    cases hexceeds
  refine ⟨?_, hheight, ?_⟩
  · intro p hp
    refine ⟨⟨hnecessary p hp, fun h => ofTokens_phrase hp h.1 h.2⟩, fun h => ?_⟩
    exact (ofTokens_phrase_cases hp).resolve_right (mt (hnecessary p hp) h)
  · intro taken stage h
    have hstart : Stage.start.Took limits.maxDepth [] :=
      ⟨[], .nil, by simp, limits.maxDepth_pos, rfl⟩
    exact (hstart.after h).depth_le

/-- Two minus signs in front of a number nest three deep: three levels are enough for them, and two
are not. -/
theorem two_signs_nest_three_deep :
    ofTokens { Limits.default with maxDepth := 3, maxDepth_pos := by decide }
        [.symbol '-', .symbol '~', .number "5"] =
      .ok (.unary .minus (.unary .tilde (.number ⟨5, 0⟩))) ∧
    ∃ position, ofTokens { Limits.default with maxDepth := 2, maxDepth_pos := by decide }
        [.symbol '-', .symbol '~', .number "5"] = .error (.nestingTooDeep 2 position) := by
  have hp : (Phrase.before .minus (.before .tilde (.number "5" ⟨5, 0⟩))).Grouped :=
    ⟨rfl, ⟨rfl, rfl, trivial⟩, trivial⟩
  exact ⟨((depth_limit_exact _).1 _ hp).1.2 (by decide),
    ((depth_limit_exact { Limits.default with maxDepth := 2, maxDepth_pos := by decide }).1 _
      hp).2 (by decide)⟩

end Expr

end Reckon
