import Reckon.Proofs.Decimal.ShownText
import Reckon.Proofs.Trace.Lines

/-!
# Reading the lines of a trace

The notes of operators are read back from their lines: of an operator that has been taken the whole
note (`readTaken?`), and of one that has been applied its symbol, the texts of its operands and the
outcome (`readApplied?`).  A line is read from its front.  Its fixed parts have to be there word for
word; digits go on as far as they can, and so does a word, which is ended by a blank or a
parenthesis.  The line of any other event is not read as a note (`readTaken?_line`,
`readApplied?_line`).
-/

namespace Reckon

open Decimal

variable {text rest : List Char}

/-! ## The parts of a line -/

/-- What stands behind the beginning, if the text has it. -/
def behind? (beginning : String) (text : List Char) : Option (List Char) :=
  text.dropPrefix? beginning.toList

theorem behind?_append (beginning : String) (text : List Char) :
    behind? beginning (beginning.toList ++ text) = some text :=
  List.dropPrefix?_append_of_beq text (beq_self_eq_true _)

theorem behind?_append_bind {α : Type} (beginning : String) (text : List Char)
    (read : List Char → Option α) :
    (behind? beginning (beginning.toList ++ text) >>= read) = read text := by
  rw [behind?_append]
  rfl

/-- The number that the digits at the front make, and what stands behind them. -/
def readNat (text : List Char) : ℕ × List Char :=
  (Nat.ofDigitChars 10 (text.takeWhile Char.isDigit) 0, text.dropWhile Char.isDigit)

theorem readNat_append (n : ℕ) (hrest : ∀ c ∈ rest.head?, c.isDigit = false) :
    readNat (n.repr.toList ++ rest) = (n, rest) := by
  obtain ⟨htake, hdrop⟩ := takeWhile_append_of_end rest (DigitRun.ofNat n).isDigit hrest
  rw [readNat, Nat.toList_repr]
  exact Prod.ext ((congrArg (Nat.ofDigitChars 10 · 0) htake).trans (DigitRun.value_ofNat n)) hdrop

/-- The same for a number that a minus may stand before. -/
def readInt : List Char → ℤ × List Char
  | '-' :: text => (-(readNat text).1, (readNat text).2)
  | text => ((readNat text).1, (readNat text).2)

theorem readInt_append (i : ℤ) (hrest : ∀ c ∈ rest.head?, c.isDigit = false) :
    readInt (i.repr.toList ++ rest) = (i, rest) := by
  cases i with
  | ofNat n =>
      show readInt (n.repr.toList ++ rest) = _
      have hhead := (DigitRun.ofNat n).isDigit_of_head? rest
      unfold readInt
      split
      · next text heq =>
        rw [Nat.toList_repr] at heq
        exact absurd (hhead '-' (congrArg List.head? heq)) (by decide)
      · rw [readNat_append n hrest]
        rfl
  | negSucc n =>
      have hminus : (Int.negSucc n).repr.toList = '-' :: (n + 1).repr.toList := by
        show ("-" ++ (n + 1).repr).toList = _
        simp
      rw [hminus, List.cons_append, readInt, readNat_append _ hrest]
      rfl

/-- Whether a word goes on with the character. -/
def isInner (c : Char) : Bool := c ≠ ' ' ∧ c ≠ '(' ∧ c ≠ ')'

/-- The word at the front, and what stands behind it. -/
def readWord (text : List Char) : String × List Char :=
  (String.ofList (text.takeWhile isInner), text.dropWhile isInner)

theorem readWord_append {word : String} (hword : ∀ c ∈ word.toList, isInner c)
    (hrest : ∀ c ∈ rest.head?, isInner c = false) :
    readWord (word.toList ++ rest) = (word, rest) := by
  obtain ⟨htake, hdrop⟩ := takeWhile_append_of_end rest hword hrest
  rw [readWord, htake, hdrop, String.ofList_toList]

theorem isInner_of_mem_singleton_symbol (op : Operator) :
    ∀ c ∈ (String.singleton op.symbol).toList, isInner c := by
  rw [String.toList_singleton, List.forall_mem_singleton]
  cases op <;> decide

theorem isInner_of_mem_text [Register] (d : Decimal) : ∀ c ∈ d.text.toList, isInner c := by
  intro c hc
  rw [Decimal.text, String.toList_ofList] at hc
  unfold isInner
  rw [decide_eq_true_iff]
  refine ⟨?_, ?_, ?_⟩ <;>
    · rintro rfl
      exact absurd (isNumberChar_of_mem_chars hc) (by decide)

/-! ## Outcomes -/

/-- The outcome that a text tells; a failure is told by the text of its cause. -/
def readOutcome? (text : List Char) : Option (Except String Decimal) :=
  match behind? "Ok(Decimal \x7b coefficient: " text with
  | some text => do
    let (coefficient, text) := readInt text
    let text ← behind? ", exponent: " text
    let (exponent, text) := readInt text
    if text = " \x7d)".toList then some (.ok ⟨coefficient, exponent⟩) else none
  | none => do
    let text ← behind? "Err(" text
    if text.getLast? = some ')' then some (.error (String.ofList text.dropLast)) else none

theorem readOutcome?_showOutcome {ε : Type} (cause : ε → String) (outcome : Except ε Decimal) :
    readOutcome? (showOutcome cause outcome).toList = some (outcome.mapError cause) := by
  cases outcome with
  | ok value =>
      have htext : (showOutcome cause (.ok value)).toList =
          "Ok(Decimal \x7b coefficient: ".toList ++ (value.coefficient.repr.toList ++
            (", exponent: ".toList ++ (value.exponent.repr.toList ++ " \x7d)".toList))) := by
        show ("Ok(" ++ value.parts ++ ")").toList = _
        simp [Decimal.parts, showRecord, toString]
      rw [readOutcome?, htext, behind?_append]
      dsimp only
      rw [readInt_append _ (by simp)]
      dsimp only
      rw [behind?_append_bind, readInt_append _ (by simp)]
      rfl
  | error e =>
      have htext : (showOutcome cause (.error e)).toList =
          "Err(".toList ++ ((cause e).toList ++ ")".toList) := by
        show ("Err(" ++ cause e ++ ")").toList = _
        simp
      have hok : behind? "Ok(Decimal \x7b coefficient: "
          ("Err(".toList ++ ((cause e).toList ++ ")".toList)) = none := rfl
      rw [readOutcome?, htext, hok]
      dsimp only
      rw [behind?_append_bind]
      simp [Except.mapError]

/-! ## Operators that have been taken -/

/-- The note whose line it is, if it is that of an operator that has been taken. -/
def readTaken? (line : String) : Option TakenOperator := do
  let text ← behind? "TRACE parse: infix '" line.toList
  let op ← Operator.find? (← text.head?) .between
  let text ← behind? "' at " text.tail
  let (position, text) := readNat text
  let text ← behind? " (min " text
  let (minPrecedence, text) := readNat text
  if text = [')'] then some ⟨op, position, minPrecedence⟩ else none

variable [Register] {event : Event} {note : TakenOperator}

theorem readTaken?_line_taken (h : note.op.fixing = .between) :
    readTaken? (Event.taken note).line = some note := by
  obtain ⟨op, position, minPrecedence⟩ := note
  have htext : (Event.taken ⟨op, position, minPrecedence⟩).line.toList =
      "TRACE parse: infix '".toList ++ (op.symbol :: ("' at ".toList ++ (position.repr.toList ++
        (" (min ".toList ++ (minPrecedence.repr.toList ++ [')']))))) := by
    show ("TRACE parse: infix '" ++ String.singleton op.symbol ++ "' at " ++ position.repr ++
      " (min " ++ minPrecedence.repr ++ ")").toList = _
    simp
  have hop : Operator.find? op.symbol .between = some op := h ▸ op.find?_symbol_fixing
  rw [readTaken?, htext, behind?_append_bind, List.head?_cons, Option.bind_eq_bind,
    Option.bind_some, hop, Option.bind_eq_bind, Option.bind_some, List.tail_cons,
    behind?_append_bind, readNat_append _ (by simp)]
  dsimp only
  rw [behind?_append_bind, readNat_append _ (by simp)]
  rfl

/-! ## Operators that have been applied -/

/-- What the line of an operator that has been applied tells.  A failure is told by the text of its
cause. -/
structure Application.Told where
  symbol : String
  operands : List String
  outcome : Except String Decimal

/-- What there is to tell of an application. -/
def Application.told : Application → Application.Told
  | unary op operand outcome =>
    ⟨String.singleton op.symbol, [operand.text], outcome.mapError EvalError.parts⟩
  | binary op left right outcome =>
    ⟨String.singleton op.symbol, [left.text, right.text], outcome.mapError ArithmeticFault.parts⟩

/-- What the line tells, if it is that of an operator that has been applied.  The parenthesis behind
its first word says that this is the symbol and no operand. -/
def readApplied? (line : String) : Option Application.Told := do
  let text ← behind? "TRACE eval: " line.toList
  let (first, text) := readWord text
  match behind? "(" text with
  | some text => do
    let (operand, text) := readWord text
    let text ← behind? ") = " text
    let outcome ← readOutcome? text
    some ⟨first, [operand], outcome⟩
  | none => do
    let text ← behind? " " text
    let (symbol, text) := readWord text
    let text ← behind? " " text
    let (right, text) := readWord text
    let text ← behind? " = " text
    let outcome ← readOutcome? text
    some ⟨symbol, [first, right], outcome⟩

theorem readApplied?_line_applied (application : Application) :
    readApplied? (Event.applied application).line = some application.told := by
  cases application with
  | unary op operand outcome =>
      have htext : (Event.applied (.unary op operand outcome)).line.toList =
          "TRACE eval: ".toList ++ ((String.singleton op.symbol).toList ++ ("(".toList ++
            (operand.text.toList ++ (") = ".toList ++
              (showOutcome EvalError.parts outcome).toList)))) := by
        show ("TRACE eval: " ++ (String.singleton op.symbol ++ "(" ++ operand.text ++ ") = " ++
          showOutcome EvalError.parts outcome)).toList = _
        simp
      rw [readApplied?, htext, behind?_append_bind,
        readWord_append (isInner_of_mem_singleton_symbol op) (by simp [isInner])]
      dsimp only
      rw [behind?_append]
      dsimp only
      rw [readWord_append (isInner_of_mem_text operand) (by simp [isInner])]
      dsimp only
      rw [behind?_append_bind, readOutcome?_showOutcome]
      rfl
  | binary op left right outcome =>
      have htext : (Event.applied (.binary op left right outcome)).line.toList =
          "TRACE eval: ".toList ++ (left.text.toList ++ (" ".toList ++
            ((String.singleton op.symbol).toList ++ (" ".toList ++ (right.text.toList ++
              (" = ".toList ++ (showOutcome ArithmeticFault.parts outcome).toList)))))) := by
        show ("TRACE eval: " ++ (left.text ++ " " ++ String.singleton op.symbol ++ " " ++
          right.text ++ " = " ++ showOutcome ArithmeticFault.parts outcome)).toList = _
        simp
      have hblank : ∀ text, behind? "(" (" ".toList ++ text) = none := fun _ => rfl
      rw [readApplied?, htext, behind?_append_bind,
        readWord_append (isInner_of_mem_text left) (by simp [isInner])]
      dsimp only
      rw [hblank]
      dsimp only
      rw [behind?_append_bind,
        readWord_append (isInner_of_mem_singleton_symbol op) (by simp [isInner])]
      dsimp only
      rw [behind?_append_bind, readWord_append (isInner_of_mem_text right) (by simp [isInner])]
      dsimp only
      rw [behind?_append_bind, readOutcome?_showOutcome]
      rfl

/-! ## The lines of all events -/

/-- The note of an operator that has been taken. -/
def Event.taken? : Event → Option TakenOperator
  | taken note => some note
  | tokens .. | unrecognized _ | parsed _ | applied _ => none

/-- The note of an operator that has been applied. -/
def Event.applied? : Event → Option Application
  | applied application => some application
  | tokens .. | unrecognized _ | taken _ | parsed _ => none

/-- How the line of an event begins. -/
def Event.beginning : Event → String
  | tokens .. => "DEBUG tokenize: "
  | unrecognized _ => "DEBUG tokenize: unrecognized "
  | taken _ => "TRACE parse: infix '"
  | parsed _ => "DEBUG parse: parsed "
  | applied _ => "TRACE eval: "

theorem Event.exists_line_eq (event : Event) :
    ∃ text, event.line.toList = event.beginning.toList ++ text := by
  unfold line
  cases event <;>
    · simp only [String.append_assoc, String.toList_append]
      exact ⟨_, rfl⟩

/-- From the line of an event the note of an operator that has been taken is read back, if the event
is one, and no line of another event is read as such a note. -/
theorem readTaken?_line (h : ∀ note ∈ event.taken?, note.op.fixing = .between) :
    readTaken? event.line = event.taken? := by
  obtain ⟨text, htext⟩ := event.exists_line_eq
  cases event with
  | taken note => exact readTaken?_line_taken (h note rfl)
  | tokens | unrecognized | parsed | applied =>
      rw [Event.beginning] at htext
      rw [readTaken?, htext]
      rfl

/-- The same of an operator that has been applied. -/
theorem readApplied?_line (event : Event) :
    readApplied? event.line = event.applied?.map Application.told := by
  obtain ⟨text, htext⟩ := event.exists_line_eq
  cases event with
  | applied application => exact readApplied?_line_applied application
  | tokens | unrecognized | taken | parsed =>
      rw [Event.beginning] at htext
      rw [readApplied?, htext]
      rfl

end Reckon
