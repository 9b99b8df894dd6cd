import Mathlib.Data.List.TakeWhile
import Reckon.Proofs.CommandLine.Arguments
import Reckon.Proofs.CommandLine.Lines
import Reckon.Proofs.Messages

/-!
# A session answers each line by itself

What a session writes for its input is, piece by piece, what the program writes when it is given
one expression in its arguments: for every line in front of the first that is not text, but the
blank ones, the output and the errors of that answer follow those of the lines before it
(`answerLines_toResponse`).  Only the exit code is the session's own.

`Prints` lists the three answers that there are to one expression when no events are shown.  The
arguments that ask for the answer to one expression under the options of a session are those of the
session with the expression added (`exists_ofArguments_append`).
-/

namespace Reckon.CommandLine

variable {options : Options} {limits : Limits} {args : List String} {precision : Option String}
  {source : String} {line : List UInt8} {lines : List (List UInt8)}

/-! ## Lines as text -/

theorem joinLines_append (l l' : List String) :
    joinLines (l ++ l') = joinLines l ++ joinLines l' := by
  unfold joinLines
  rw [List.map_append, String.join_append]

theorem joinLines_singleton (s : String) : joinLines [s] = s ++ "\n" := by
  unfold joinLines
  rw [List.map_singleton, String.join_cons, String.join_nil, String.append_empty]

/-- A text in which nothing is left of its front is blank. -/
private theorem trimFront_eq_nil_iff {text : List Char} :
    Text.trimFront text = [] ↔ ∀ c ∈ text, Text.isBlank c = true :=
  List.dropWhile_eq_nil_iff

/-- Trimming leaves nothing of a text when all of it is blank, and only then. -/
theorem trimmed_eq_empty_iff : trimmed source = "" ↔ source.toList.all Text.isBlank = true := by
  have hends : Text.trim source.toList = [] ↔ Text.trimFront source.toList = [] := by
    unfold Text.trim
    rw [List.reverse_eq_nil_iff, trimFront_eq_nil_iff]
    constructor
    · intro hblank
      cases hfront : Text.trimFront source.toList with
      | nil => rfl
      | cons c rest =>
          -- what is left behind the front would begin with a blank
          have hfirst : (Text.trimFront source.toList).head? = some c := by
            rw [hfront]
            rfl
          have hc := hblank c (by rw [hfront]; simp)
          rw [Text.head_trimFront hfirst] at hc
          cases hc
    · intro hfront
      rw [hfront]
      simp
  rw [List.all_eq_true, ← trimFront_eq_nil_iff, ← hends, trimmed]
  constructor
  · intro h
    simpa using congrArg String.toList h
  · intro h
    rw [h]

/-! ## One expression -/

/-- What is written before the value if the options show the expression. -/
def treeLine (showTree : Bool) (e : Expr) : String := if showTree then e.render ++ "\n" else ""

/-- The answers to an expression: it cannot be read, it has a value, or it has none.  Value and
error are one line each. -/
inductive Prints (showTree : Bool) (limits : Limits) (source : String) : Response → Prop where
  | unread {e : CalcError} (hparse : parse limits (trimmed source) = .error e)
      (hline : SingleLine e.message) :
      Prints showTree limits source ⟨1, "", "error: " ++ e.message ++ "\n"⟩
  | value {e : Expr} {value : Decimal} (hparse : parse limits (trimmed source) = .ok e)
      (heval : e.eval limits = .ok value) (hline : SingleLine value.text) :
      Prints showTree limits source ⟨0, treeLine showTree e ++ value.text ++ "\n", ""⟩
  | failed {e : Expr} {fault : EvalError} (hparse : parse limits (trimmed source) = .ok e)
      (heval : e.eval limits = .error fault) (hline : SingleLine fault.message) :
      Prints showTree limits source ⟨1, treeLine showTree e, "error: " ++ fault.message ++ "\n"⟩

theorem answer_eq (hphases : options.phases = []) (source : String) :
    answer options limits source = answerWithoutTrace options limits (trimmed source) := by
  unfold answer traceNotices
  rw [hphases]
  rfl

private theorem joinLines_shown (showTree : Bool) (e : Expr) :
    joinLines (if showTree then [e.render] else []) = treeLine showTree e := by
  unfold treeLine
  split
  · exact joinLines_singleton e.render
  · rfl

theorem prints_answerExpression (hphases : options.phases = []) (source : String) :
    Prints options.showTree limits source (answerExpression options limits source).toResponse := by
  unfold answerExpression
  rw [answer_eq hphases, answerWithoutTrace]
  cases hparse : parse limits (trimmed source) with
  | error e =>
      show Prints options.showTree limits source ⟨1, "", joinLines ["error: " ++ e.message]⟩
      rw [joinLines_singleton]
      exact Prints.unread hparse (singleLine_message_of_parse hparse)
  | ok e =>
      dsimp only
      cases heval : e.eval limits with
      | error fault =>
          show Prints options.showTree limits source
            ⟨1, joinLines (if options.showTree then [e.render] else []),
              joinLines ["error: " ++ fault.message]⟩
          rw [joinLines_shown, joinLines_singleton]
          exact Prints.failed hparse heval fault.singleLine_message
      | ok value =>
          show Prints options.showTree limits source
            ⟨0, joinLines ((if options.showTree then [e.render] else []) ++ [value.text]), ""⟩
          rw [joinLines_append, joinLines_shown, joinLines_singleton, ← String.append_assoc]
          exact Prints.value hparse heval value.singleLine_text

/-! ## The input -/

/-- The texts that a session answers: those of the lines in front of the first that is not text,
without the blank ones. -/
def answeredTexts (lines : List (List UInt8)) : List String :=
  ((lines.take (lines.findIdx fun line => (decodeLine? line).isNone)).filterMap decodeLine?).filter
    fun source => trimmed source ≠ ""

/-- Whether every line is text. -/
def allText (lines : List (List UInt8)) : Bool := lines.all fun line => (decodeLine? line).isSome

theorem allText_cons_of_none (h : decodeLine? line = none) : allText (line :: lines) = false := by
  unfold allText
  rw [List.all_cons, h, Option.isSome_none, Bool.false_and]

theorem allText_cons_of_some (h : decodeLine? line = some source) :
    allText (line :: lines) = allText lines := by
  unfold allText
  rw [List.all_cons, h, Option.isSome_some, Bool.true_and]

theorem answeredTexts_cons_of_none (h : decodeLine? line = none) :
    answeredTexts (line :: lines) = [] := by
  unfold answeredTexts
  rw [List.findIdx_cons, h]
  rfl

theorem answeredTexts_cons_of_some (h : decodeLine? line = some source) :
    answeredTexts (line :: lines) =
      if trimmed source = "" then answeredTexts lines else source :: answeredTexts lines := by
  unfold answeredTexts
  rw [List.findIdx_cons, h]
  dsimp only [Option.isNone, cond]
  rw [List.take_succ_cons, List.filterMap_cons_some h, List.filter_cons]
  split <;> simp_all

theorem Transcript.toResponse_prepend (a : Answer) (rest : Transcript) :
    (Transcript.prepend a rest).toResponse =
      ⟨rest.toResponse.code, joinLines a.output ++ rest.toResponse.output,
        joinLines (a.notices.map Notice.line) ++ rest.toResponse.errors⟩ := by
  unfold Transcript.prepend Transcript.toResponse
  dsimp only
  rw [joinLines_append, List.map_append, joinLines_append]

/-- What a session writes for lines, one after the other. -/
theorem answerLines_toResponse (options : Options) (limits : Limits) (lines : List (List UInt8)) :
    (answerLines options limits lines).toResponse =
      ⟨if allText lines then 0 else 1,
        String.join ((answeredTexts lines).map fun source =>
          (answerExpression options limits source).toResponse.output),
        String.join ((answeredTexts lines).map fun source =>
          (answerExpression options limits source).toResponse.errors) ++
            if allText lines then "" else "error: stream did not contain valid UTF-8\n"⟩ := by
  induction lines with
  | nil => rfl
  | cons line lines ih =>
      unfold answerLines
      cases hline : decodeLine? line with
      | none =>
          rw [answeredTexts_cons_of_none hline, allText_cons_of_none hline]
          rfl
      | some source =>
          rw [answeredTexts_cons_of_some hline, allText_cons_of_some hline]
          dsimp only
          by_cases hblank : trimmed source = ""
          · rw [if_pos hblank, if_pos (trimmed_eq_empty_iff.1 hblank), ih]
          · rw [if_neg hblank, if_neg (mt trimmed_eq_empty_iff.2 hblank),
              Transcript.toResponse_prepend, ih, List.map_cons, String.join_cons, List.map_cons,
              String.join_cons, String.append_assoc]
            rfl

/-! ## The main result -/

/-- Without an expression in the arguments, and without events to show, the input is cut into lines
and each is answered by itself.  The output is what the program writes to it when it is given the
text of each line in turn, and so are the errors, down to the first line that is not text, which is
reported and makes the session fail.  Nothing else does.

The answer to a text is one of three, and it is the answer to the same arguments with the text added
as the expression. -/
theorem lines_answered_like_expressions
    (hplan : Plan.ofArguments args precision = .answerInput options limits)
    (hphases : options.phases = []) (input : List UInt8) :
    (∃ lines, Lines lines input ∧
      respond args precision input =
        ⟨if allText lines then 0 else 1,
          String.join ((answeredTexts lines).map fun source =>
            (answerExpression options limits source).toResponse.output),
          String.join ((answeredTexts lines).map fun source =>
            (answerExpression options limits source).toResponse.errors) ++
              if allText lines then "" else "error: stream did not contain valid UTF-8\n"⟩) ∧
    ∀ source,
      Prints options.showTree limits source (answerExpression options limits source).toResponse ∧
      ∃ suffix ∈ [[source], ["--", source]], ∀ input',
        respond (args ++ suffix) precision input' =
          (answerExpression options limits source).toResponse := by
  constructor
  · refine ⟨splitLines input, lines_splitLines input, ?_⟩
    unfold respond
    rw [hplan]
    exact answerLines_toResponse options limits (splitLines input)
  · intro source
    obtain ⟨suffix, hsuffix, happended⟩ := exists_ofArguments_append hplan source
    refine ⟨prints_answerExpression hphases source, suffix, hsuffix, ?_⟩
    intro input'
    unfold respond
    rw [happended]

/-- A quotient without value, a blank line and a sum, and a byte that begins no character: the
session breaks off there.  The sum by itself is answered alike. -/
theorem session_broken_off :
    Plan.ofArguments ["--tree"] none = .answerInput ⟨none, none, [], true, none⟩ .default ∧
      respond ["--tree"] none [49, 47, 48, 13, 10, 32, 10, 49, 43, 50, 10, 255] =
        ⟨1, "1/0\n1+2\n3\n", "error: division by zero applying '/' to 1\n" ++
          "error: stream did not contain valid UTF-8\n"⟩ ∧
      ∃ suffix ∈ [["1+2"], ["--", "1+2"]], ∀ input',
        respond (["--tree"] ++ suffix) none input' = ⟨0, "1+2\n3\n", ""⟩ := by
  have hplan : Plan.ofArguments ["--tree"] none =
      .answerInput ⟨none, none, [], true, none⟩ .default := by rfl
  obtain ⟨⟨lines, hlines, hrespond⟩, hsingle⟩ := lines_answered_like_expressions hplan rfl
    [49, 47, 48, 13, 10, 32, 10, 49, 43, 50, 10, 255]
  obtain ⟨-, suffix, hsuffix, hsum⟩ := hsingle "1+2"
  refine ⟨hplan, ?_, suffix, hsuffix, fun input' => (hsum input').trans (by decide +kernel)⟩
  rw [hrespond, ← hlines.splitLines_eq]
  decide +kernel

end Reckon.CommandLine
