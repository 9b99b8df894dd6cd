import Mathlib.Data.List.Forall2
import Reckon.Proofs.Expr.Reading
import Reckon.Trace.Evaluation

/-!
# The operators noted in an evaluation

The operators of an expression are applied in postorder: those of the left operand, those of the
right one, and then the operator itself.  The notes follow that order, each with the values of the
operands.  They are complete when the expression has a value.  Otherwise they end with the first
operator that fails, and its error is that of the expression (`NotesEvaluation`).

Notes are only ever added, and do not change the value (`Expr.evalNoting_eq`).  So those of an
operator are those of its operands and behind them its own (`Expr.applications_unary`,
`Expr.applications_binary`), and the main result is an induction on the expression that follows
these two equations.
-/

namespace Reckon

variable [Register] {limits : Limits} {e left right operand node : Expr} {op : Operator}
  {nodes nodes' : List Expr} {notes notes' : List Application} {note : Application} {a b : Decimal}

/-! ## The notes of an operator and its operands -/

namespace Expr

/-- New notes are put in front of the earlier ones, and do not depend on them. -/
theorem exists_evalNoting (limits : Limits) (e : Expr) :
    ∃ added, ∀ notes, e.evalNoting limits notes = (e.eval limits, added ++ notes) := by
  induction e with
  | number value => exact ⟨[], fun _ => rfl⟩
  | unary op operand ih =>
      obtain ⟨added, hadded⟩ := ih
      cases heval : operand.eval limits with
      | error e =>
          refine ⟨added, fun notes => ?_⟩
          rw [evalNoting, hadded, eval, heval]
          rfl
      | ok a =>
          refine ⟨.unary op a (op.applyUnary limits a) :: added, fun notes => ?_⟩
          rw [evalNoting, hadded, eval, heval]
          rfl
  | binary op left right ihl ihr =>
      obtain ⟨added, hadded⟩ := ihl
      obtain ⟨added', hadded'⟩ := ihr
      cases hleft : left.eval limits with
      | error e =>
          refine ⟨added, fun notes => ?_⟩
          rw [evalNoting, hadded, eval, hleft]
          rfl
      | ok a =>
          cases hright : right.eval limits with
          | error e =>
              refine ⟨added' ++ added, fun notes => ?_⟩
              rw [evalNoting, hadded, eval, hleft]
              dsimp only
              rw [hadded', hright, List.append_assoc]
              rfl
          | ok b =>
              refine ⟨noteBinary limits op a b ++ (added' ++ added), fun notes => ?_⟩
              rw [evalNoting, hadded, eval, hleft]
              dsimp only
              rw [hadded', hright, List.append_assoc, List.append_assoc]
              rfl

/-- Taking notes does not change the value. -/
theorem evalNoting_eq (limits : Limits) (e : Expr) (notes : List Application) :
    e.evalNoting limits notes = (e.eval limits, (e.applications limits).reverse ++ notes) := by
  obtain ⟨added, hadded⟩ := exists_evalNoting limits e
  unfold applications
  rw [hadded, hadded, List.append_nil, List.reverse_reverse]

theorem applications_unary (limits : Limits) (op : Operator) (operand : Expr) :
    (unary op operand).applications limits =
      operand.applications limits ++
        match operand.eval limits with
        | .ok a => [.unary op a (op.applyUnary limits a)]
        | .error _ => [] := by
  conv_lhs => unfold applications evalNoting
  rw [evalNoting_eq]
  cases operand.eval limits <;> simp

/-- There is one note at most for an operator with two operands. -/
theorem reverse_noteBinary (limits : Limits) (op : Operator) (a b : Decimal) :
    (noteBinary limits op a b).reverse = noteBinary limits op a b := by
  unfold noteBinary
  split <;> rfl

theorem applications_binary (limits : Limits) (op : Operator) (left right : Expr) :
    (binary op left right).applications limits =
      left.applications limits ++
        match left.eval limits with
        | .ok a =>
          right.applications limits ++
            match right.eval limits with
            | .ok b => noteBinary limits op a b
            | .error _ => []
        | .error _ => [] := by
  conv_lhs => unfold applications evalNoting
  rw [evalNoting_eq]
  cases left.eval limits with
  | error e => simp
  | ok a =>
      dsimp only
      rw [evalNoting_eq]
      cases right.eval limits <;> simp [reverse_noteBinary]

end Expr

/-! ## Notes and operators -/

/-- What an application comes to, a failure being reported for the operator and its operands. -/
def Application.result : Application → Except EvalError Decimal
  | unary _ _ outcome => outcome
  | binary op left right outcome => outcome.mapError (.ofFault op left right)

/-- The note is that of the operator of the expression: it has the values of its operands, and comes
to what the expression comes to. -/
inductive Notes (limits : Limits) : Expr → Application → Prop where
  | unary {op : Operator} {operand : Expr} {a : Decimal} {outcome : Except EvalError Decimal}
      (ha : operand.eval limits = .ok a)
      (h : (Application.unary op a outcome).result = (Expr.unary op operand).eval limits) :
      Notes limits (.unary op operand) (.unary op a outcome)
  | binary {op : Operator} {left right : Expr} {a b : Decimal}
      {outcome : Except ArithmeticFault Decimal}
      (ha : left.eval limits = .ok a) (hb : right.eval limits = .ok b)
      (h : (Application.binary op a b outcome).result = (Expr.binary op left right).eval limits) :
      Notes limits (.binary op left right) (.binary op a b outcome)

theorem Notes.result_eq (h : Notes limits node note) : note.result = node.eval limits := by
  cases h with
  | unary ha h => exact h
  | binary ha hb h => exact h

/-- The note of an operator that stands between its operands. -/
theorem exists_note_binary (hfixing : op.fixing = .between) (ha : left.eval limits = .ok a)
    (hb : right.eval limits = .ok b) :
    ∃ note, Expr.noteBinary limits op a b = [note] ∧
      Notes limits (.binary op left right) note := by
  obtain ⟨operation, hoperation⟩ := Operator.exists_binary? hfixing
  refine ⟨.binary op a b (operation limits a b), ?_, .binary ha hb ?_⟩
  · rw [Expr.noteBinary, hoperation]
  · rw [Expr.eval, ha, hb]
    show _ = op.applyBinary limits a b
    rw [Operator.applyBinary_of_binary? hoperation]
    rfl

/-! ## The notes of an evaluation -/

/-- The operators of an expression with their operands, in the order in which they are applied. -/
def Expr.postorder : Expr → List Expr
  | number _ => []
  | unary op operand => operand.postorder ++ [unary op operand]
  | binary op left right => left.postorder ++ right.postorder ++ [binary op left right]

/-- The notes are those of all the operators in their order, and none of them has failed. -/
structure Completed (limits : Limits) (nodes : List Expr) (notes : List Application) : Prop where
  forall₂_notes : List.Forall₂ (Notes limits) nodes notes
  exists_result : ∀ note ∈ notes, ∃ value, note.result = .ok value

/-- The notes of evaluating an expression: those of all its operators in postorder, if it has a
value, and otherwise those up to the first that fails, whose error is the one that is reported. -/
inductive NotesEvaluation (limits : Limits) (e : Expr) : List Application → Prop where
  | completed {value : Decimal} {notes : List Application} (heval : e.eval limits = .ok value)
      (hnotes : Completed limits e.postorder notes) : NotesEvaluation limits e notes
  | failed {fault : EvalError} {node : Expr} {done rest : List Expr} {earlier : List Application}
      {last : Application} (heval : e.eval limits = .error fault)
      (hpostorder : e.postorder = done ++ node :: rest) (hearlier : Completed limits done earlier)
      (hlast : Notes limits node last) (hfault : last.result = .error fault) :
      NotesEvaluation limits e (earlier ++ [last])

theorem completed_nil (limits : Limits) : Completed limits [] [] := ⟨.nil, by simp⟩

theorem Completed.append (h : Completed limits nodes notes) (h' : Completed limits nodes' notes') :
    Completed limits (nodes ++ nodes') (notes ++ notes') :=
  ⟨List.rel_append h.forall₂_notes h'.forall₂_notes, fun note hnote =>
    (List.mem_append.1 hnote).elim (h.exists_result note) (h'.exists_result note)⟩

namespace NotesEvaluation

/-- When the operands have values, the operator's own note is the last. -/
theorem of_completed (hnodes : Completed limits nodes notes)
    (hpostorder : e.postorder = nodes ++ [e]) (hnote : Notes limits e note) :
    NotesEvaluation limits e (notes ++ [note]) := by
  cases heval : e.eval limits with
  | error fault =>
      exact .failed heval hpostorder hnodes hnote (hnote.result_eq.trans heval)
  | ok value =>
      refine .completed heval ?_
      rw [hpostorder]
      refine hnodes.append ⟨.cons hnote .nil, fun note' hnote' => ?_⟩
      rw [List.mem_singleton] at hnote'
      subst hnote'
      exact ⟨value, hnote.result_eq.trans heval⟩

/-- When an operand has no value, its notes are the last. -/
theorem of_operand {fault : EvalError} {rest : List Expr}
    (h : NotesEvaluation limits operand notes') (hnodes : Completed limits nodes notes)
    (hpostorder : e.postorder = nodes ++ operand.postorder ++ rest)
    (hoperand : operand.eval limits = .error fault) (heval : e.eval limits = .error fault) :
    NotesEvaluation limits e (notes ++ notes') := by
  cases h with
  | completed hvalue => rw [hvalue] at hoperand; cases hoperand
  | @failed fault' node done later earlier last hfault' hdone hearlier hlast hfault =>
      rw [hfault'] at hoperand
      cases hoperand
      have hsplit : e.postorder = (nodes ++ done) ++ node :: (later ++ rest) := by
        rw [hpostorder, hdone]
        simp
      rw [← List.append_assoc]
      exact .failed heval hsplit (hnodes.append hearlier) hlast hfault

/-- The notes of an operand that has a value. -/
theorem completed_of_ok (h : NotesEvaluation limits operand notes)
    (ha : operand.eval limits = .ok a) : Completed limits operand.postorder notes := by
  cases h with
  | completed _ hnotes => exact hnotes
  | failed hfault => rw [hfault] at ha; cases ha

end NotesEvaluation

/-- The notes of evaluating an expression whose operators have the operands that they take. -/
theorem notesEvaluation_applications (h : e.WellFormed) :
    NotesEvaluation limits e (e.applications limits) := by
  induction e with
  | number value => exact .completed rfl (completed_nil limits)
  | unary op operand ih =>
      have hoperand := ih h.2
      rw [Expr.applications_unary]
      cases heval : operand.eval limits with
      | ok a =>
          refine .of_completed (hoperand.completed_of_ok heval) rfl (.unary heval ?_)
          rw [Expr.eval, heval]
          rfl
      | error fault =>
          have hfails : (Expr.unary op operand).eval limits = .error fault := by
            rw [Expr.eval, heval]
            rfl
          rw [List.append_nil]
          exact .of_operand hoperand (completed_nil limits) rfl heval hfails
  | binary op left right ihl ihr =>
      have hleft := ihl h.2.1
      have hright := ihr h.2.2
      rw [Expr.applications_binary]
      cases ha : left.eval limits with
      | error fault =>
          have hfails : (Expr.binary op left right).eval limits = .error fault := by
            rw [Expr.eval, ha]
            rfl
          rw [List.append_nil]
          exact .of_operand hleft (completed_nil limits) (List.append_assoc _ _ _) ha hfails
      | ok a =>
          have hdone := hleft.completed_of_ok ha
          dsimp only
          cases hb : right.eval limits with
          | error fault =>
              have hfails : (Expr.binary op left right).eval limits = .error fault := by
                rw [Expr.eval, ha, hb]
                rfl
              rw [List.append_nil]
              exact .of_operand hright hdone rfl hb hfails
          | ok b =>
              obtain ⟨note, hnote, hnotes⟩ := exists_note_binary h.1 ha hb
              dsimp only
              rw [hnote, ← List.append_assoc]
              exact .of_completed (hdone.append (hright.completed_of_ok hb)) rfl hnotes

end Reckon
