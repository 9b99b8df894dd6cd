import Reckon.Proofs.Grammar.DepthExact

/-!
# Open parentheses

Which parentheses a list of tokens leaves open can be told without reading it as an expression: an
opening one is put on a stack, and a closing one takes the innermost off it (`openParentheses`).
The reader keeps the same positions in the same order among its levels
(`Stage.openPositions_after`).  Operators between operands come and go around them, but completing
right operands does not touch a parenthesis (`Stage.openPositions_settle`), and what it stops at is
the innermost one that is open (`Stage.openPositions_unwind`).
-/

namespace Reckon

variable {limit position precedence i : ℕ} {operand result : Subtree} {levels rest : List Level}
  {opened : List ℕ} {token : Token} {tokens : List Token} {stage next : Stage}

/-! ## The parentheses that tokens leave open -/

/-- The positions of the open parentheses behind one more token, the innermost first. -/
def openBehind (position : ℕ) (opened : List ℕ) : Token → List ℕ
  | .leftParen => position :: opened
  | .rightParen => opened.tail
  | _ => opened

/-- The positions of the open parentheses behind more tokens, the first of them at the given
position. -/
def openFrom : ℕ → List ℕ → List Token → List ℕ
  | _, opened, [] => opened
  | position, opened, token :: tokens =>
    openFrom (position + 1) (openBehind position opened token) tokens

/-- The positions of the parentheses that the tokens leave open, the innermost first. -/
def openParentheses (tokens : List Token) : List ℕ := openFrom 0 [] tokens

theorem mem_openBehind (h : i ∈ openBehind position opened token) :
    i ∈ opened ∨ i = position ∧ token = .leftParen := by
  cases token with
  | leftParen => exact (List.mem_cons.1 h).symm.imp_right fun hi => ⟨hi, rfl⟩
  | rightParen => exact Or.inl (List.mem_of_mem_tail h)
  | number | symbol => exact Or.inl h

theorem mem_openFrom (h : i ∈ openFrom position opened tokens) :
    i ∈ opened ∨ ∃ n, i = position + n ∧ tokens[n]? = some .leftParen := by
  induction tokens generalizing position opened with
  | nil => exact Or.inl h
  | cons token tokens ih =>
      rcases ih h with hmem | ⟨n, rfl, hn⟩
      · rcases mem_openBehind hmem with hmem | ⟨rfl, rfl⟩
        · exact Or.inl hmem
        · exact Or.inr ⟨0, rfl, rfl⟩
      · exact Or.inr ⟨n + 1, by omega, hn⟩

/-- Only an opening parenthesis is left open. -/
theorem getElem?_of_mem_openParentheses (h : i ∈ openParentheses tokens) :
    tokens[i]? = some .leftParen := by
  rcases mem_openFrom h with hmem | ⟨n, rfl, hn⟩
  · cases hmem
  · rwa [Nat.zero_add]

/-! ## The parentheses among the levels -/

/-- The position of the parenthesis, if the level is one. -/
def Level.opening? : Level → Option ℕ
  | rightOperand .. => none
  | parenthesis _ position => some position

/-- The positions of the parentheses among the levels. -/
def openPositions (levels : List Level) : List ℕ := levels.filterMap Level.opening?

namespace Stage

/-- The levels that are open. -/
def openLevels : Stage → List Level
  | wanting _ levels | holding _ levels => levels

theorem openPositions_settle
    (h : settle limit position precedence operand levels = .ok (result, rest)) :
    openPositions rest = openPositions levels := by
  induction levels generalizing operand with
  | nil =>
      cases h
      rfl
  | cons level levels ih =>
      cases level with
      | parenthesis waiting opening =>
          cases h
          rfl
      | rightOperand left op =>
          unfold settle at h
          split at h
          · obtain ⟨completed, -, h⟩ := Except.bind_eq_ok_iff.1 h
            exact ih h
          · cases h
            rfl

/-- The positions of the parentheses that are open when all right operands have been completed. -/
def openAround : Option (List Operator × ℕ × List Level) → List ℕ
  | none => []
  | some (_, opening, levels) => opening :: openPositions levels

theorem openPositions_unwind {around : Option (List Operator × ℕ × List Level)}
    (h : unwind limit position operand levels = .ok (result, around)) :
    openAround around = openPositions levels := by
  induction levels generalizing operand with
  | nil =>
      cases h
      rfl
  | cons level levels ih =>
      cases level with
      | parenthesis waiting opening =>
          cases h
          rfl
      | rightOperand left op =>
          obtain ⟨completed, -, h⟩ := Except.bind_eq_ok_iff.1 h
          exact ih h

/-! ## Taking tokens -/

theorem openPositions_feedWanting {waiting : List Operator}
    (h : feedWanting limit position token waiting levels = .ok next) :
    openPositions next.openLevels = openBehind position (openPositions levels) token := by
  unfold feedWanting at h
  split at h
  · split at h
    · obtain ⟨applied, -, h⟩ := Except.bind_eq_ok_iff.1 h
      cases h
      rfl
    · cases h
  · obtain ⟨rfl, -⟩ := of_guardDepth h
    rfl
  · split at h
    · next op hop =>
      obtain ⟨rfl, -⟩ := Token.eq_symbol_of_operator? hop
      obtain ⟨rfl, -⟩ := of_guardDepth h
      rfl
    · cases h

theorem openPositions_feedClosing
    (h : feedClosing limit position token operand levels = .ok next) :
    openPositions next.openLevels = openBehind position (openPositions levels) token := by
  obtain ⟨⟨inside, around⟩, hunwind, h⟩ := Except.bind_eq_ok_iff.1 h
  have hopen := openPositions_unwind hunwind
  cases around with
  | none => cases h
  | some around =>
      dsimp only at h
      split at h
      · next hclose =>
        obtain ⟨applied, -, h⟩ := Except.bind_eq_ok_iff.1 h
        cases h
        rw [hclose, ← hopen]
        rfl
      · cases h

theorem openPositions_feedHolding
    (h : feedHolding limit position token operand levels = .ok next) :
    openPositions next.openLevels = openBehind position (openPositions levels) token := by
  unfold feedHolding at h
  split at h
  · next op hop =>
    obtain ⟨rfl, -⟩ := Token.eq_symbol_of_operator? hop
    obtain ⟨applied, -, h⟩ := Except.bind_eq_ok_iff.1 h
    cases h
    rfl
  · next op _ hop =>
    obtain ⟨rfl, -⟩ := Token.eq_symbol_of_operator? hop
    obtain ⟨⟨left, rest⟩, hsettle, h⟩ := Except.bind_eq_ok_iff.1 h
    obtain ⟨rfl, -⟩ := of_guardDepth h
    have hopen : openPositions rest = openPositions levels := openPositions_settle hsettle
    exact hopen
  · exact openPositions_feedClosing h

/-- A token opens and closes among the levels what it opens and closes among the tokens. -/
theorem openPositions_feed (h : stage.feed limit position token = .ok next) :
    openPositions next.openLevels = openBehind position (openPositions stage.openLevels) token := by
  cases stage with
  | wanting waiting levels => exact openPositions_feedWanting h
  | holding operand levels => exact openPositions_feedHolding h

theorem openPositions_after (h : stage.after limit position tokens = .ok next) :
    openPositions next.openLevels = openFrom position (openPositions stage.openLevels) tokens := by
  induction tokens generalizing stage position with
  | nil =>
      cases h
      rfl
  | cons token tokens ih =>
      obtain ⟨taken, htaken, h⟩ := Except.bind_eq_ok_iff.1 h
      rw [ih h, openPositions_feed htaken]
      rfl

end Stage

end Reckon
