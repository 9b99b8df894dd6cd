import Mathlib.Data.Nat.Basic
import Mathlib.Order.MinMax
import Reckon.Proofs.Grammar.Sound

/-!
# What the grammar writes is read

The tokens of a grouped phrase take the reader from wanting an operand to holding one.  What it
holds is the phrase's last operand, and the operators on the way there are still open around it
(`Phrase.pending`): the reader does not know yet that they are complete.  The next operator, the
closing parenthesis or the end of the input completes them, and then the operand is the whole
phrase (`Stage.settle_pending`, `Stage.unwind_pending`).

This is an induction on the phrase, under any limit that the phrase keeps (`Stage.readsPast`).
Together with the other direction it says that the reader decides the grammar
(`Expr.ofTokens_eq_ok_iff_spells`).
-/

namespace Reckon

variable {limit position : ℕ} {op : Operator} {levels : List Level} {waiting : List Operator}
  {rest : List Token} {p : Phrase} {e left : Expr}

/-! ## Expressions with their heights -/

namespace Subtree

def of (e : Expr) : Subtree := ⟨e, e.height, rfl⟩

theorem unary_of (h : (Expr.unary op e).height ≤ limit) :
    unary limit position op (of e) = .ok (of (.unary op e)) :=
  if_pos h

theorem binary_of (h : (Expr.binary op left e).height ≤ limit) :
    binary limit position op (of left) (of e) = .ok (of (.binary op left e)) :=
  if_pos h

end Subtree

/-- The operators in front of an expression applied to it, the innermost first. -/
def prefixed (e : Expr) (waiting : List Operator) : Expr :=
  waiting.foldl (fun e op => .unary op e) e

theorem Subtree.applyAll_of (h : e.height + waiting.length ≤ limit) :
    applyAll limit position (of e) waiting = .ok (of (prefixed e waiting)) := by
  induction waiting generalizing e with
  | nil => rfl
  | cons op waiting ih =>
      rw [List.length_cons] at h
      have hunary : (Expr.unary op e).height + waiting.length ≤ limit := by
        simp only [Expr.height]
        omega
      unfold applyAll
      rw [unary_of (Nat.le_of_add_right_le hunary)]
      exact ih hunary

/-! ## The open part of a phrase -/

namespace Phrase

/-- The operand that the phrase ends with. -/
def lastOperand : Phrase → Expr
  | between _ _ right => right.lastOperand
  | p => p.expr

/-- The operators between operands that are open at the end of the phrase. -/
def pending : Phrase → List Level
  | between left op right => right.pending ++ [.rightOperand (.of left.expr) op]
  | _ => []

theorem PrecedesPostfix.lastOperand_eq (h : p.PrecedesPostfix) : p.lastOperand = p.expr := by
  cases p with
  | between => exact h.elim
  | number | parenthesis | before | behind => rfl

theorem PrecedesPostfix.pending_eq (h : p.PrecedesPostfix) : p.pending = [] := by
  cases p with
  | between => exact h.elim
  | number | parenthesis | before | behind => rfl

theorem atLeast_zero (p : Phrase) : p.AtLeast 0 := by
  cases p with
  | between => exact Nat.zero_le _
  | number | parenthesis | before | behind => trivial

theorem FitsLeft.atLeast {n : ℕ} (h : p.FitsLeft op) (hle : n ≤ op.precedence) : p.AtLeast n := by
  cases p with
  | between left inner right =>
      rcases h with hlt | ⟨heq, -⟩
      · exact hle.trans hlt.le
      · exact hle.trans heq.ge
  | number | parenthesis | before | behind => trivial

/-- An operator that a phrase stands to the left of completes its right operand as well. -/
theorem FitsRight.fitsLeft {inner : Operator} {left : Phrase} (h : p.FitsRight inner)
    (hfits : (between left inner p).FitsLeft op) : p.FitsLeft op := by
  cases p with
  | between left' innermost right =>
      have hlt := fitsLeft_between.1 hfits
      have hle := fitsRight_iff.1 h
      exact Or.inl (hlt.trans_le hle)
  | number | parenthesis | before | behind => trivial

theorem nesting_pos (p : Phrase) : 0 < p.nesting := by
  induction p with
  | number => exact Nat.one_pos
  | parenthesis | before => exact Nat.succ_pos _
  | behind operand op ih => exact ih
  | between left op right => exact lt_max_of_lt_right (Nat.succ_pos _)

theorem nesting_le_length (p : Phrase) : p.nesting ≤ p.tokens.length := by
  induction p with
  | number => exact le_rfl
  | parenthesis | before | behind | between =>
      simp only [nesting, tokens, List.length_append, List.length_cons, List.length_nil]
      omega

theorem height_lt_length (p : Phrase) : p.expr.height < p.tokens.length := by
  induction p with
  | number => exact Nat.one_pos
  | parenthesis | before | behind | between =>
      simp only [expr, Expr.height, tokens, List.length_append, List.length_cons, List.length_nil]
      omega

end Phrase

namespace Stage

open Subtree

theorem settle_of_le {n : ℕ} {operand : Subtree} (h : minPrecedence levels ≤ n) :
    settle limit position n operand levels = .ok (operand, levels) := by
  unfold settle
  split
  · exact if_neg (not_lt.2 h)
  · rfl

/-- An operator to the right of a phrase completes it. -/
theorem settle_pending (hp : p.Grouped) (hfits : p.FitsLeft op) (hheight : p.expr.height ≤ limit) :
    settle limit position op.precedence (of p.lastOperand) (p.pending ++ levels) =
      settle limit position op.precedence (of p.expr) levels := by
  induction p generalizing levels with
  | number | parenthesis | before | behind => rfl
  | between left inner right _ ih =>
      obtain ⟨-, -, hgrouped, -, hinner⟩ := hp
      have hright : right.expr.height ≤ limit := by
        simp only [Phrase.expr, Expr.height] at hheight
        omega
      simp only [Phrase.pending, Phrase.lastOperand, List.append_assoc, List.cons_append,
        List.nil_append]
      -- first the right operand is completed, then this operator
      rw [ih hgrouped (hinner.fitsLeft hfits) hright, settle,
        if_pos (Phrase.fitsLeft_between.1 hfits), binary_of hheight]
      rfl

/-- The end of what a phrase stands in completes it. -/
theorem unwind_pending (levels : List Level) (hheight : p.expr.height ≤ limit) :
    unwind limit position (of p.lastOperand) (p.pending ++ levels) =
      unwind limit position (of p.expr) levels := by
  induction p generalizing levels with
  | number | parenthesis | before | behind => rfl
  | between left inner right _ ih =>
      have hright : right.expr.height ≤ limit := by
        simp only [Phrase.expr, Expr.height] at hheight
        omega
      simp only [Phrase.pending, Phrase.lastOperand, List.append_assoc, List.cons_append,
        List.nil_append]
      rw [ih _ hright, unwind, binary_of hheight]
      rfl

/-! ## Reading a phrase -/

theorem run_cons {stage next : Stage} {token : Token}
    (h : stage.feed limit position token = .ok next) :
    stage.run limit position (token :: rest) = next.run limit (position + 1) rest := by
  rw [run, h]

theorem guardDepth_of_le {opened : Stage} (h : opened.depth ≤ limit) :
    guardDepth limit position opened = .ok opened :=
  if_pos h

theorem feed_number {literal : String} {value : Decimal} (hread : Decimal.read literal = .ok value)
    (hheight : waiting.length ≤ limit) :
    feed limit position (.number literal) (wanting waiting levels) =
      .ok (holding (of (prefixed (.number value) waiting)) levels) := by
  have happlied : applyAll limit (position + 1) (ofNumber value) waiting =
      .ok (of (prefixed (.number value) waiting)) :=
    applyAll_of (by simpa [Expr.height] using hheight)
  simp only [feed, feedWanting, hread, happlied]
  rfl

theorem feed_before (hfixing : op.fixing = .before)
    (hdepth : nesting levels + (waiting.length + 1) ≤ limit) :
    feed limit position (.symbol op.symbol) (wanting waiting levels) =
      .ok (wanting (op :: waiting) levels) := by
  have hop : (Token.symbol op.symbol).operator? .before = some op :=
    hfixing ▸ Operator.find?_symbol_fixing op
  simp only [feed, feedWanting, hop]
  exact guardDepth_of_le hdepth

theorem feed_behind (hfixing : op.fixing = .behind)
    (hheight : (Expr.unary op e).height ≤ limit) :
    feed limit position (.symbol op.symbol) (holding (of e) levels) =
      .ok (holding (of (.unary op e)) levels) := by
  have hop : (Token.symbol op.symbol).operator? .behind = some op :=
    hfixing ▸ Operator.find?_symbol_fixing op
  simp only [feed, feedHolding, hop, unary_of hheight]
  rfl

theorem feed_between (hp : p.Grouped) (hfixing : op.fixing = .between) (hfits : p.FitsLeft op)
    (hle : minPrecedence levels ≤ op.precedence) (hheight : p.expr.height ≤ limit)
    (hdepth : nesting (.rightOperand (of p.expr) op :: levels) ≤ limit) :
    feed limit position (.symbol op.symbol) (holding (of p.lastOperand) (p.pending ++ levels)) =
      .ok (wanting [] (.rightOperand (of p.expr) op :: levels)) := by
  have hop : (Token.symbol op.symbol).operator? .between = some op :=
    hfixing ▸ Operator.find?_symbol_fixing op
  have hbehind : (Token.symbol op.symbol).operator? .behind = none := by
    revert hfixing
    cases op <;> decide
  simp only [feed, feedHolding, hop, hbehind, settle_pending hp hfits hheight, settle_of_le hle]
  exact guardDepth_of_le hdepth

theorem feed_leftParen
    (hdepth : nesting (.parenthesis waiting position :: levels) ≤ limit) :
    feed limit position .leftParen (wanting waiting levels) =
      .ok (wanting [] (.parenthesis waiting position :: levels)) :=
  guardDepth_of_le hdepth

theorem feed_rightParen {start : ℕ} (hheight : p.expr.height + waiting.length ≤ limit) :
    feed limit position .rightParen
        (holding (of p.lastOperand) (p.pending ++ .parenthesis waiting start :: levels)) =
      .ok (holding (of (prefixed p.expr waiting)) levels) := by
  have hunwind : unwind limit position (of p.lastOperand)
      (p.pending ++ .parenthesis waiting start :: levels) =
        .ok (of p.expr, some (waiting, start, levels)) :=
    unwind_pending _ (by omega)
  simp only [feed, feedHolding, Token.operator?, feedClosing, hunwind]
  show (do
    let operand ← applyAll limit (position + 1) (of p.expr) waiting
    pure (holding operand levels)) = _
  rw [applyAll_of hheight]
  rfl

/-- The tokens of the phrase take the reader past it, wherever the limit leaves room for it. -/
def ReadsPast (limit : ℕ) (p : Phrase) : Prop :=
  ∀ (position : ℕ) (waiting : List Operator) (levels : List Level) (rest : List Token),
    waiting = [] ∨ p.FollowsPrefix → p.AtLeast (minPrecedence levels) →
    p.expr.height + waiting.length ≤ limit →
    nesting levels + waiting.length + p.nesting ≤ limit + 1 →
    run limit position (wanting waiting levels) (p.tokens ++ rest) =
      run limit (position + p.tokens.length)
        (holding (of (prefixed p.lastOperand waiting)) (p.pending ++ levels)) rest

theorem readsPast_number {literal : String} {value : Decimal}
    (hread : Decimal.read literal = .ok value) : ReadsPast limit (.number literal value) := by
  intro position waiting levels rest _ _ hheight _
  exact run_cons (feed_number hread (by omega))

theorem ReadsPast.parenthesis {inside : Phrase} (h : ReadsPast limit inside) :
    ReadsPast limit (.parenthesis inside) := by
  intro position waiting levels rest _ _ hheight hnesting
  have hpos := inside.nesting_pos
  have hopened := nesting_parenthesis waiting position levels
  simp only [Phrase.nesting, Phrase.expr] at hnesting hheight
  have hend : position + 1 + inside.tokens.length + 1 =
      position + (Phrase.parenthesis inside).tokens.length := by
    simp only [Phrase.tokens, List.length_cons, List.length_append, List.length_nil]
    omega
  calc run limit position (wanting waiting levels) ((Phrase.parenthesis inside).tokens ++ rest)
      = run limit position (wanting waiting levels)
          (.leftParen :: (inside.tokens ++ .rightParen :: rest)) := by simp [Phrase.tokens]
    _ = run limit (position + 1) (wanting [] (.parenthesis waiting position :: levels))
          (inside.tokens ++ .rightParen :: rest) := run_cons (feed_leftParen (by omega))
    _ = run limit (position + 1 + inside.tokens.length)
          (holding (of inside.lastOperand)
            (inside.pending ++ .parenthesis waiting position :: levels))
          (.rightParen :: rest) :=
        h _ [] _ _ (Or.inl rfl) inside.atLeast_zero
          (by simp only [List.length_nil]; omega) (by simp only [List.length_nil]; omega)
    _ = run limit (position + 1 + inside.tokens.length + 1)
          (holding (of (prefixed inside.expr waiting)) levels) rest :=
        run_cons (feed_rightParen hheight)
    _ = _ := by rw [hend]; rfl

theorem ReadsPast.before {operand : Phrase} (hfixing : op.fixing = .before)
    (hfollows : operand.FollowsPrefix) (h : ReadsPast limit operand) :
    ReadsPast limit (.before op operand) := by
  intro position waiting levels rest _ _ hheight hnesting
  have hpos := operand.nesting_pos
  have hprecedes := hfollows.precedesPostfix
  simp only [Phrase.nesting, Phrase.expr, Expr.height] at hnesting hheight
  have hend : position + 1 + operand.tokens.length =
      position + (Phrase.before op operand).tokens.length := by
    simp only [Phrase.tokens, List.length_cons]
    omega
  calc run limit position (wanting waiting levels) ((Phrase.before op operand).tokens ++ rest)
      = run limit (position + 1) (wanting (op :: waiting) levels) (operand.tokens ++ rest) :=
        run_cons (feed_before hfixing (by omega))
    _ = run limit (position + 1 + operand.tokens.length)
          (holding (of (prefixed operand.lastOperand (op :: waiting)))
            (operand.pending ++ levels)) rest :=
        h _ _ _ _ (Or.inr hfollows) (hprecedes.atLeast _)
          (by simp only [List.length_cons]; omega) (by simp only [List.length_cons]; omega)
    _ = _ := by rw [hend, hprecedes.lastOperand_eq, hprecedes.pending_eq]; rfl

theorem ReadsPast.behind {operand : Phrase} (hfixing : op.fixing = .behind)
    (hprecedes : operand.PrecedesPostfix) (h : ReadsPast limit operand) :
    ReadsPast limit (.behind operand op) := by
  intro position waiting levels rest hwaiting _ hheight hnesting
  -- an operator waiting in front would have taken the operand for itself
  obtain rfl : waiting = [] := hwaiting.resolve_right id
  have hoperand : operand.expr.height ≤ limit := by
    simp only [Phrase.expr, Expr.height] at hheight
    omega
  have hend : position + operand.tokens.length + 1 =
      position + (Phrase.behind operand op).tokens.length := by
    simp only [Phrase.tokens, List.length_append, List.length_cons, List.length_nil]
    omega
  calc run limit position (wanting [] levels) ((Phrase.behind operand op).tokens ++ rest)
      = run limit position (wanting [] levels)
          (operand.tokens ++ .symbol op.symbol :: rest) := by simp [Phrase.tokens]
    _ = run limit (position + operand.tokens.length)
          (holding (of operand.lastOperand) (operand.pending ++ levels))
          (.symbol op.symbol :: rest) :=
        h _ [] _ _ (Or.inl rfl) (hprecedes.atLeast _) hoperand hnesting
    _ = run limit (position + operand.tokens.length + 1)
          (holding (of (.unary op operand.expr)) levels) rest := by
        rw [hprecedes.lastOperand_eq, hprecedes.pending_eq]
        exact run_cons (feed_behind hfixing hheight)
    _ = _ := by rw [hend]; rfl

theorem ReadsPast.between {left right : Phrase} (hp : (Phrase.between left op right).Grouped)
    (hleft : ReadsPast limit left) (hright : ReadsPast limit right) :
    ReadsPast limit (.between left op right) := by
  intro position waiting levels rest hwaiting hleast hheight hnesting
  obtain ⟨hfixing, hgrouped, -, hfitsLeft, hfitsRight⟩ := hp
  obtain rfl : waiting = [] := hwaiting.resolve_right id
  have hpos := right.nesting_pos
  have hopened := nesting_rightOperand (of left.expr) op levels
  simp only [Phrase.nesting, Phrase.expr, Expr.height, List.length_nil] at hnesting hheight
  have hend : position + left.tokens.length + 1 + right.tokens.length =
      position + (Phrase.between left op right).tokens.length := by
    simp only [Phrase.tokens, List.length_append, List.length_cons]
    omega
  calc run limit position (wanting [] levels) ((Phrase.between left op right).tokens ++ rest)
      = run limit position (wanting [] levels)
          (left.tokens ++ .symbol op.symbol :: (right.tokens ++ rest)) := by
        simp [Phrase.tokens]
    _ = run limit (position + left.tokens.length)
          (holding (of left.lastOperand) (left.pending ++ levels))
          (.symbol op.symbol :: (right.tokens ++ rest)) :=
        hleft _ [] _ _ (Or.inl rfl) (hfitsLeft.atLeast hleast)
          (by simp only [List.length_nil]; omega) (by simp only [List.length_nil]; omega)
    _ = run limit (position + left.tokens.length + 1)
          (wanting [] (.rightOperand (of left.expr) op :: levels)) (right.tokens ++ rest) :=
        run_cons (feed_between hgrouped hfixing hfitsLeft hleast (by omega) (by omega))
    _ = run limit (position + left.tokens.length + 1 + right.tokens.length)
          (holding (of right.lastOperand)
            (right.pending ++ .rightOperand (of left.expr) op :: levels)) rest :=
        hright _ [] _ _ (Or.inl rfl) (Phrase.fitsRight_iff.1 hfitsRight)
          (by simp only [List.length_nil]; omega) (by simp only [List.length_nil]; omega)
    _ = _ := by
        rw [hend, Phrase.pending, List.append_assoc]
        rfl

/-- Every grouped phrase is read past. -/
theorem readsPast (hp : p.Grouped) : ReadsPast limit p := by
  induction p with
  | number literal value => exact readsPast_number hp
  | parenthesis inside ih => exact .parenthesis (ih hp)
  | before op operand ih => exact .before hp.1 hp.2.2 (ih hp.2.1)
  | behind operand op ih => exact .behind hp.1 hp.2.2 (ih hp.2.1)
  | between left op right ihl ihr => exact .between hp (ihl hp.2.1) (ihr hp.2.2.1)

theorem finish_phrase (hheight : p.expr.height ≤ limit) :
    finish limit position (holding (of p.lastOperand) p.pending) = .ok p.expr := by
  have hunwind : unwind limit position (of p.lastOperand) (p.pending ++ []) =
      .ok (of p.expr, none) := unwind_pending [] hheight
  rw [List.append_nil] at hunwind
  simp only [finish, hunwind]
  rfl

end Stage

/-! ## The main result -/

namespace Expr

variable {limits : Limits}

/-- A grouped phrase that keeps the depth limit is read as the expression that it stands for. -/
theorem ofTokens_phrase (hp : p.Grouped) (hheight : p.expr.height ≤ limits.maxDepth)
    (hnesting : p.nesting ≤ limits.maxDepth) : ofTokens limits p.tokens = .ok p.expr := by
  have hrun := Stage.readsPast hp 0 [] [] [] (Or.inl rfl) p.atLeast_zero hheight
    (by simp only [nesting, List.length_nil]; omega)
  have hlength := p.height_lt_length
  unfold ofTokens
  split
  · next hnil =>
    rw [hnil] at hlength
    exact absurd hlength (Nat.not_lt_zero _)
  · rw [List.append_nil] at hrun
    rw [Stage.start, hrun, List.append_nil]
    exact Stage.finish_phrase hheight

theorem ofTokens_of_spells {tokens : List Token} (he : Spells tokens e)
    (h : tokens.length < limits.maxDepth) : ofTokens limits tokens = .ok e := by
  obtain ⟨p, hp, rfl, rfl⟩ := he
  have hheight := p.height_lt_length
  have hnesting := p.nesting_le_length
  exact ofTokens_phrase hp (by omega) (by omega)

/-- When the depth limit is larger than the number of tokens, exactly the expressions that the
tokens spell are read.  Tokens spell at most one expression. -/
theorem ofTokens_eq_ok_iff_spells (limits : Limits) (tokens : List Token) :
    (tokens.length < limits.maxDepth →
      ∀ e, ofTokens limits tokens = .ok e ↔ Spells tokens e) ∧
    ∀ e e', Spells tokens e → Spells tokens e' → e = e' := by
  constructor
  · intro h e
    constructor
    · intro hread
      obtain ⟨p, hp, htokens⟩ := exists_writes_of_ofTokens hread
      exact ⟨p, hp.grouped, htokens, hp.expr_eq⟩
    · intro he
      exact ofTokens_of_spells he h
  · -- reading under a limit that is large enough gives both
    intro e e' he he'
    obtain ⟨deep, hdeep⟩ : ∃ deep : Limits, deep.maxDepth = tokens.length + 1 :=
      ⟨{ limits with maxDepth := tokens.length + 1, maxDepth_pos := Nat.succ_pos _ }, rfl⟩
    have hread : ofTokens deep tokens = .ok e := ofTokens_of_spells he (by omega)
    have hread' : ofTokens deep tokens = .ok e' := ofTokens_of_spells he' (by omega)
    exact Except.ok.inj (hread.symm.trans hread')

/-- Two subtractions in a row are grouped from the left. -/
theorem ofTokens_subtractions :
    ofTokens .default [.number "7", .symbol '-', .number "4", .symbol '-', .number "1"] =
      .ok (.binary .subtract (.binary .subtract (.number ⟨7, 0⟩) (.number ⟨4, 0⟩))
        (.number ⟨1, 0⟩)) := by
  refine ((ofTokens_eq_ok_iff_spells .default _).1 (by decide) _).2
    ⟨.between (.between (.number "7" ⟨7, 0⟩) .subtract (.number "4" ⟨4, 0⟩)) .subtract
      (.number "1" ⟨1, 0⟩), ?_, rfl, rfl⟩
  have hinner : (Phrase.between (.number "7" ⟨7, 0⟩) .subtract (.number "4" ⟨4, 0⟩)).Grouped :=
    ⟨rfl, rfl, rfl, trivial, trivial⟩
  exact ⟨rfl, hinner, rfl, Or.inr ⟨rfl, rfl⟩, trivial⟩

end Expr

end Reckon
