import Reckon.Proofs.Grammar.DepthExact
import Reckon.Trace.Reading

/-!
# The operators noted while reading are those of the expression

A note is taken with a token that stands for an operator between operands, and only with one, and
the precedence of that operator is at least the one that the note gives (`Stage.of_mem_takenAll`).
This holds whether or not the tokens can be read.

Where they can, the notes leave no operator out and add none (`NotesReading`).  Strategy: which
operators stand between operands can be told from the tokens alone, an operator having a left
operand exactly where an operand ends with the token in front of it (`Token.betweensFrom`).  The
reader holds an operand exactly there, so these are the operators that it notes, and the phrase that
the tokens make up uses the same ones.  Neither of the two has to be followed through the levels
that are open.
-/

namespace Reckon

variable {limit position precedence : ℕ} {operand result : Subtree} {levels rest : List Level}
  {token : Token} {tokens : List Token} {stage next : Stage} {note : TakenOperator}
  {op : Operator} {p : Phrase} {e : Expr}

/-! ## The operators between operands -/

/-- The operators of a phrase that stand between operands, from the left to the right, each with the
index of its token, when the first token of the phrase has the given index. -/
def Phrase.betweens : Phrase → (start : ℕ) → List (ℕ × Operator)
  | number .., _ => []
  | parenthesis inside, start => inside.betweens (start + 1)
  | before _ operand, start => operand.betweens (start + 1)
  | behind operand _, start => operand.betweens start
  | between left op right, start =>
    left.betweens start ++
      (start + left.tokens.length, op) :: right.betweens (start + left.tokens.length + 1)

/-- The number of operators with two operands. -/
def Expr.binaryCount : Expr → ℕ
  | number _ => 0
  | unary _ operand => operand.binaryCount
  | binary _ left right => left.binaryCount + right.binaryCount + 1

theorem Phrase.length_betweens (p : Phrase) (start : ℕ) :
    (p.betweens start).length = p.expr.binaryCount := by
  induction p generalizing start with
  | number => rfl
  | parenthesis inside ih => exact ih (start + 1)
  | before op operand ih => exact ih (start + 1)
  | behind operand op ih => exact ih start
  | between left op right ihl ihr =>
      simp only [betweens, expr, Expr.binaryCount, List.length_append, List.length_cons, ihl, ihr]
      omega

namespace Token

/-- Whether an operand ends with the token. -/
def endsOperand : Token → Bool
  | number _ | rightParen => true
  | leftParen => false
  | symbol c => (Operator.find? c .behind).isSome

/-- The operators that the tokens show to stand between operands, each with its index, when the
first token has the given index and it is known whether an operand ends in front of it. -/
def betweensFrom : (position : ℕ) → (held : Bool) → List Token → List (ℕ × Operator)
  | _, _, [] => []
  | position, held, token :: tokens =>
    (if held then token.operator? .between else none).toList.map (position, ·) ++
      betweensFrom (position + 1) token.endsOperand tokens

theorem endsOperand_symbol (op : Operator) :
    (symbol op.symbol).endsOperand = decide (op.fixing = .behind) := by
  cases op <;> decide

theorem operator?_between_symbol (hfixing : op.fixing = .between) :
    (symbol op.symbol).operator? .between = some op :=
  hfixing ▸ Operator.find?_symbol_fixing op

/-- No symbol stands both behind an operand and between operands. -/
theorem operator?_between_of_behind (h : token.operator? .behind = some op) :
    token.operator? .between = none := by
  obtain ⟨rfl, hfixing⟩ := eq_symbol_of_operator? h
  clear h
  revert hfixing
  cases op <;> decide

end Token

open Token (betweensFrom)

/-- The tokens of a phrase show the operators that it uses between operands. -/
theorem Phrase.betweensFrom_tokens (hp : p.Grouped) (position : ℕ) (later : List Token) :
    betweensFrom position false (p.tokens ++ later) =
      p.betweens position ++ betweensFrom (position + p.tokens.length) true later := by
  induction p generalizing position later with
  | number => rfl
  | parenthesis inside ih =>
      have hend : position + (parenthesis inside).tokens.length =
          position + 1 + inside.tokens.length + 1 := by
        simp only [tokens, List.length_cons, List.length_append, List.length_nil]
        omega
      rw [hend]
      calc betweensFrom position false ((parenthesis inside).tokens ++ later)
          = betweensFrom (position + 1) false (inside.tokens ++ .rightParen :: later) := by
            simp [tokens, betweensFrom, Token.endsOperand]
        _ = inside.betweens (position + 1) ++
              betweensFrom (position + 1 + inside.tokens.length) true (.rightParen :: later) :=
            ih hp _ _
        _ = _ := rfl
  | before op operand ih =>
      have hend : position + (before op operand).tokens.length =
          position + 1 + operand.tokens.length := by
        simp only [tokens, List.length_cons]
        omega
      rw [hend]
      calc betweensFrom position false ((before op operand).tokens ++ later)
          = betweensFrom (position + 1) false (operand.tokens ++ later) := by
            simp [tokens, betweensFrom, Token.endsOperand_symbol, hp.1]
        _ = _ := ih hp.2.1 _ _
  | behind operand op ih =>
      have hnone : (Token.symbol op.symbol).operator? .between = none :=
        Token.operator?_between_of_behind (hp.1 ▸ Operator.find?_symbol_fixing op)
      calc betweensFrom position false ((behind operand op).tokens ++ later)
          = betweensFrom position false (operand.tokens ++ .symbol op.symbol :: later) := by
            simp [tokens]
        _ = operand.betweens position ++
              betweensFrom (position + operand.tokens.length) true (.symbol op.symbol :: later) :=
            ih hp.2.1 _ _
        _ = _ := by
            simp [tokens, betweens, betweensFrom, Token.endsOperand_symbol, hp.1, hnone,
              Nat.add_assoc]
  | between left op right ihl ihr =>
      have hend : position + (between left op right).tokens.length =
          position + left.tokens.length + 1 + right.tokens.length := by
        simp only [tokens, List.length_append, List.length_cons]
        omega
      rw [hend]
      calc betweensFrom position false ((between left op right).tokens ++ later)
          = betweensFrom position false
              (left.tokens ++ .symbol op.symbol :: (right.tokens ++ later)) := by simp [tokens]
        _ = left.betweens position ++ betweensFrom (position + left.tokens.length) true
              (.symbol op.symbol :: (right.tokens ++ later)) := ihl hp.2.1 _ _
        _ = left.betweens position ++ (position + left.tokens.length, op) ::
              betweensFrom (position + left.tokens.length + 1) false (right.tokens ++ later) := by
            simp [betweensFrom, Token.endsOperand_symbol, Token.operator?_between_symbol hp.1, hp.1]
        _ = _ := by
            rw [ihr hp.2.2.1]
            simp [betweens]

/-! ## A note and its token -/

namespace Stage

/-- An operator is taken where its precedence is enough. -/
theorem minPrecedence_le_of_settle
    (h : settle limit position precedence operand levels = .ok (result, rest)) :
    minPrecedence rest ≤ precedence := by
  induction levels generalizing operand with
  | nil =>
      cases h
      exact Nat.zero_le _
  | cons level levels ih =>
      cases level with
      | parenthesis waiting opening =>
          cases h
          exact Nat.zero_le _
      | rightOperand left op =>
          unfold settle at h
          split at h
          · obtain ⟨completed, -, h⟩ := Except.bind_eq_ok_iff.1 h
            exact ih h
          · next hge =>
            cases h
            exact Nat.not_lt.1 hge

theorem of_taken? (h : stage.taken? limit position token = some note) :
    token = .symbol note.op.symbol ∧ note.op.fixing = .between ∧ note.position = position ∧
      note.minPrecedence ≤ note.op.precedence := by
  cases stage with
  | wanting waiting levels => cases h
  | holding operand levels =>
      unfold taken? at h
      dsimp only at h
      split at h
      · next op hop =>
        split at h
        · next hsettle =>
          cases h
          obtain ⟨htoken, hfixing⟩ := Token.eq_symbol_of_operator? hop
          exact ⟨htoken, hfixing, rfl, minPrecedence_le_of_settle hsettle⟩
        · cases h
      · cases h

/-- Whatever the tokens are, a note names an operator between operands that stands there, and a
precedence that it has. -/
theorem of_mem_takenAll (h : note ∈ stage.takenAll limit position tokens) :
    ∃ i, note.position = position + i ∧ tokens[i]? = some (.symbol note.op.symbol) ∧
      note.op.fixing = .between ∧ note.minPrecedence ≤ note.op.precedence := by
  induction tokens generalizing stage position with
  | nil => cases h
  | cons token tokens ih =>
      unfold takenAll at h
      rcases List.mem_append.1 h with htaken | hlater
      · obtain ⟨rfl, hfixing, hposition, hle⟩ := of_taken? (Option.mem_toList.1 htaken)
        exact ⟨0, hposition, rfl, hfixing, hle⟩
      · split at hlater
        · obtain ⟨i, hi, hnote⟩ := ih hlater
          exact ⟨i + 1, by omega, hnote⟩
        · cases hlater

/-- The notes are taken from the left to the right, no two of them with one token. -/
theorem pairwise_takenAll (limit position : ℕ) (stage : Stage) (tokens : List Token) :
    (stage.takenAll limit position tokens).Pairwise fun a b => a.position < b.position := by
  induction tokens generalizing stage position with
  | nil => exact .nil
  | cons token tokens ih =>
      unfold takenAll
      rw [List.pairwise_append]
      refine ⟨?_, ?_, ?_⟩
      · cases stage.taken? limit position token with
        | none => exact .nil
        | some note => exact List.pairwise_singleton _ _
      · cases stage.feed limit position token with
        | error e => exact .nil
        | ok next => exact ih _ _
      · intro a ha b hb
        obtain ⟨-, -, hposition, -⟩ := of_taken? (Option.mem_toList.1 ha)
        split at hb
        · obtain ⟨i, hi, -⟩ := of_mem_takenAll hb
          omega
        · cases hb

/-! ## Where the tokens can be read -/

/-- Whether the reader holds an operand. -/
def isHolding : Stage → Bool
  | wanting .. => false
  | holding .. => true

/-- The reader holds an operand when one ends with the token it has taken. -/
theorem isHolding_feed (h : stage.feed limit position token = .ok next) :
    next.isHolding = token.endsOperand := by
  cases stage with
  | wanting waiting levels =>
      unfold feed feedWanting at h
      dsimp only at h
      split at h
      · split at h
        · obtain ⟨applied, -, h⟩ := Except.bind_eq_ok_iff.1 h
          cases h
          rfl
        · cases h
      · obtain ⟨rfl, -⟩ := of_guardDepth h
        rfl
      · split at h
        · next op hop =>
          obtain ⟨rfl, hfixing⟩ := Token.eq_symbol_of_operator? hop
          obtain ⟨rfl, -⟩ := of_guardDepth h
          rw [Token.endsOperand_symbol, hfixing]
          rfl
        · cases h
  | holding operand levels =>
      unfold feed feedHolding at h
      dsimp only at h
      split at h
      · next op _ hop =>
        obtain ⟨rfl, hfixing⟩ := Token.eq_symbol_of_operator? hop
        obtain ⟨applied, -, h⟩ := Except.bind_eq_ok_iff.1 h
        cases h
        rw [Token.endsOperand_symbol, hfixing]
        rfl
      · next op hop =>
        obtain ⟨rfl, hfixing⟩ := Token.eq_symbol_of_operator? hop
        obtain ⟨settled, -, h⟩ := Except.bind_eq_ok_iff.1 h
        obtain ⟨rfl, -⟩ := of_guardDepth h
        rw [Token.endsOperand_symbol, hfixing]
        rfl
      · obtain ⟨⟨inside, around⟩, -, h⟩ := Except.bind_eq_ok_iff.1 h
        cases around with
        | none => cases h
        | some around =>
            dsimp only at h
            split at h
            · next hclose =>
              obtain ⟨applied, -, h⟩ := Except.bind_eq_ok_iff.1 h
              cases h
              rw [hclose]
              rfl
            · cases h

/-- A token that is taken is noted if it is an operator between operands. -/
theorem map_taken? (h : stage.feed limit position token = .ok next) :
    (stage.taken? limit position token).toList.map (fun note => (note.position, note.op)) =
      (if stage.isHolding then token.operator? .between else none).toList.map (position, ·) := by
  cases stage with
  | wanting waiting levels => rfl
  | holding operand levels =>
      unfold taken?
      dsimp only [isHolding]
      cases hop : token.operator? .between with
      | none => rfl
      | some op =>
          have hbehind : token.operator? .behind = none := by
            rw [Option.eq_none_iff_forall_ne_some]
            intro op' hop'
            rw [Token.operator?_between_of_behind hop'] at hop
            cases hop
          -- the token has been taken, so the operands in front of it were completed
          unfold feed feedHolding at h
          dsimp only at h
          rw [hbehind, hop] at h
          obtain ⟨⟨left, around⟩, hsettle, -⟩ := Except.bind_eq_ok_iff.1 h
          dsimp only
          rw [hsettle]
          rfl

/-- Where the tokens are read to their end, the operators between operands are noted. -/
theorem map_takenAll (h : stage.run limit position tokens = .ok e) :
    (stage.takenAll limit position tokens).map (fun note => (note.position, note.op)) =
      betweensFrom position stage.isHolding tokens := by
  induction tokens generalizing stage position with
  | nil => rfl
  | cons token tokens ih =>
      unfold run at h
      split at h
      · next next hfeed =>
        unfold takenAll betweensFrom
        rw [hfeed, List.map_append, map_taken? hfeed]
        dsimp only
        rw [ih h, isHolding_feed hfeed]
      · cases h

end Stage

/-! ## The main result -/

/-- The notes of reading tokens as an expression: they are in the order of the tokens, one for each
operator that has two operands in the expression.  Each names an operator between operands whose
token is there, and a precedence that it has, and together they are all the operators that are used
between operands where the tokens are grouped as the expression. -/
structure NotesReading (tokens : List Token) (e : Expr) (notes : List TakenOperator) : Prop where
  pairwise_position_lt : notes.Pairwise fun a b => a.position < b.position
  length_eq : notes.length = e.binaryCount
  of_mem : ∀ note ∈ notes, tokens[note.position]? = some (.symbol note.op.symbol) ∧
    note.op.fixing = .between ∧ note.minPrecedence ≤ note.op.precedence
  spells : Spells tokens e
  eq_betweens : ∀ p : Phrase, p.Grouped → p.tokens = tokens →
    p.expr = e ∧ notes.map (fun note => (note.position, note.op)) = p.betweens 0

theorem notesReading_of_ofTokens {limits : Limits} (h : Expr.ofTokens limits tokens = .ok e) :
    NotesReading tokens e (Stage.start.takenAll limits.maxDepth 0 tokens) := by
  obtain ⟨p, hp, htokens⟩ := Expr.exists_writes_of_ofTokens h
  have hrun : Stage.start.run limits.maxDepth 0 tokens = .ok e := by
    cases tokens with
    | nil => cases h
    | cons token tokens => exact h
  have hphrase : ∀ p : Phrase, p.Grouped → p.tokens = tokens →
      (Stage.start.takenAll limits.maxDepth 0 tokens).map
        (fun note => (note.position, note.op)) = p.betweens 0 := by
    intro p hp htokens
    have hshown := p.betweensFrom_tokens hp 0 []
    rw [List.append_nil, htokens] at hshown
    rw [Stage.map_takenAll hrun]
    exact hshown.trans (List.append_nil _)
  refine ⟨Stage.pairwise_takenAll _ _ _ _, ?_, ?_, ⟨p, hp.grouped, htokens, hp.expr_eq⟩, ?_⟩
  · have hlength := congrArg List.length (hphrase p hp.grouped htokens)
    rwa [List.length_map, p.length_betweens, hp.expr_eq] at hlength
  · intro note hnote
    obtain ⟨i, hi, hfacts⟩ := Stage.of_mem_takenAll hnote
    rw [Nat.zero_add] at hi
    rwa [hi]
  · intro p hp htokens
    refine ⟨?_, hphrase p hp htokens⟩
    have hcases : Exceeds limits.maxDepth (Expr.ofTokens limits p.tokens) ∨
        Expr.ofTokens limits p.tokens = .ok p.expr := Expr.ofTokens_phrase_cases hp
    rw [htokens, h] at hcases
    rcases hcases with ⟨position, hexceeds⟩ | hread
    · cases hexceeds
    · exact (Except.ok.inj hread).symm

end Reckon
