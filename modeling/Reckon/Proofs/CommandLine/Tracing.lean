import Reckon.Proofs.CommandLine.Phases
import Reckon.Proofs.CommandLine.Session
import Reckon.Proofs.Trace.Evaluation
import Reckon.Proofs.Trace.ReadBack
import Reckon.Proofs.Trace.Reading

/-!
# A trace changes no answer

The events of the phases that are shown are written to the errors, each on a line of its own, in
front of the error of their expression.  They are all that the phases add: without them a session is
the session that shows no phases (`withoutEvents_answerExpression`, `withoutEvents_answerLines`).

Whoever reads the errors as one text can tell the two kinds of lines apart.  Every notice is a
single line, so the lines of the text are those of the notices, and the line of an event does not
begin like an error (`errorLines_withoutEvents`).

The main result adds to this what a trace says of an expression that has been read: which operators
the reader met, and which ones the evaluation applied.  It is also what the lines of the trace say,
since the notes are read back from them (`exists_notes_read_of_parse`).
-/

namespace Reckon.CommandLine

variable {options options' : Options} {limits : Limits} {source : String} {notice : Notice}
  {l : List String} {t : Transcript} {r r' r'' : Response}

/-! ## The lines of errors -/

/-- The lines of a text that begin like those of errors, in order. -/
def errorLines (text : String) : List (List Char) :=
  (text.toList.splitOn '\n').filter fun line => StartsLikeError line

/-- Single lines that are joined are the lines of the text. -/
theorem errorLines_joinLines (h : ∀ line ∈ l, SingleLine line) :
    errorLines (joinLines l) = (l.map String.toList).filter fun line => StartsLikeError line := by
  induction l with
  | nil => decide
  | cons line l ih =>
      have hsplit : (joinLines (line :: l)).toList.splitOn '\n' =
          line.toList :: (joinLines l).toList.splitOn '\n' := by
        have htext : (joinLines (line :: l)).toList =
            line.toList ++ '\n' :: (joinLines l).toList := by
          rw [← List.singleton_append, joinLines_append, joinLines_singleton]
          simp
        rw [htext, List.splitOn_eq_splitOnP, List.splitOn_eq_splitOnP]
        refine List.splitOnP_append_cons_of_forall_mem (fun c hc => ?_) '\n' (by decide) _
        have hline := h line List.mem_cons_self
        exact beq_eq_false_iff_ne.2 fun heq => hline (heq ▸ hc)
      have ih := ih fun line' hline' => h line' (List.mem_cons_of_mem _ hline')
      unfold errorLines at ih ⊢
      rw [hsplit, List.map_cons, List.filter_cons, List.filter_cons, ih]

/-- Whether the notice is of an error. -/
def Notice.isError : Notice → Bool
  | event _ => false
  | error _ => true

/-- What the session writes but the events. -/
def Transcript.withoutEvents (t : Transcript) : Transcript :=
  { t with notices := t.notices.filter Notice.isError }

/-- Events add no lines of errors. -/
theorem errorLines_withoutEvents (h : ∀ notice ∈ t.notices, SingleLine notice.line) :
    errorLines t.withoutEvents.toResponse.errors = errorLines t.toResponse.errors := by
  have hlines : ∀ notices : List Notice, (∀ notice ∈ notices, SingleLine notice.line) →
      ∀ line ∈ notices.map Notice.line, SingleLine line := by
    intro notices hnotices line hline
    obtain ⟨notice, hnotice, rfl⟩ := List.mem_map.1 hline
    exact hnotices notice hnotice
  show errorLines (joinLines ((t.notices.filter Notice.isError).map Notice.line)) =
    errorLines (joinLines (t.notices.map Notice.line))
  rw [errorLines_joinLines (hlines _ h),
    errorLines_joinLines (hlines _ fun notice hnotice => h notice (List.mem_of_mem_filter hnotice)),
    List.map_map, List.map_map, List.filter_map, List.filter_map, List.filter_filter]
  congr 1
  apply List.filter_congr
  intro notice _
  cases notice with
  | error message => simp [Notice.isError]
  | event e => simp [Notice.isError, Notice.line, e.not_startsLikeError_line]

/-! ## Notices are single lines -/

theorem exists_event_of_mem_traceNotices (h : notice ∈ traceNotices options limits source) :
    ∃ e, notice = .event e := by
  unfold traceNotices at h
  split at h
  · cases h
  · obtain ⟨e, -, rfl⟩ := List.mem_map.1 h
    exact ⟨e, rfl⟩

theorem exists_error_of_mem_answerWithoutTrace
    (h : notice ∈ (answerWithoutTrace options limits source).notices) :
    ∃ message, notice = .error message ∧ SingleLine message := by
  unfold answerWithoutTrace at h
  split at h
  · next e hparse => exact ⟨_, List.mem_singleton.1 h, singleLine_message_of_parse hparse⟩
  · dsimp only at h
    split at h
    · cases h
    · next fault _ => exact ⟨_, List.mem_singleton.1 h, fault.singleLine_message⟩

theorem singleLine_of_mem_answer (h : notice ∈ (answer options limits source).notices) :
    SingleLine notice.line := by
  rcases List.mem_append.1 h with hevent | herror
  · obtain ⟨e, rfl⟩ := exists_event_of_mem_traceNotices hevent
    exact e.singleLine_line
  · obtain ⟨message, rfl, hmessage⟩ := exists_error_of_mem_answerWithoutTrace herror
    simp +decide [Notice.line, hmessage]

theorem singleLine_of_mem_answerLines {lines : List (List UInt8)}
    (h : notice ∈ (answerLines options limits lines).notices) : SingleLine notice.line := by
  induction lines with
  | nil => cases h
  | cons line lines ih =>
      unfold answerLines at h
      split at h
      · rw [List.mem_singleton.1 h]
        decide
      · split at h
        · exact ih h
        · rcases List.mem_append.1 h with hfirst | hlater
          · exact singleLine_of_mem_answer hfirst
          · exact ih hlater

/-! ## Sessions without their events -/

theorem filter_isError_answer (options : Options) (limits : Limits) (source : String) :
    (answer options limits source).notices.filter Notice.isError =
      (answer (options.withPhases []) limits source).notices := by
  have hevents : (traceNotices options limits (trimmed source)).filter Notice.isError = [] := by
    rw [List.filter_eq_nil_iff]
    intro notice hnotice
    obtain ⟨e, rfl⟩ := exists_event_of_mem_traceNotices hnotice
    exact Bool.false_ne_true
  have herrors :
      (answerWithoutTrace options limits (trimmed source)).notices.filter Notice.isError =
        (answerWithoutTrace options limits (trimmed source)).notices := by
    rw [List.filter_eq_self]
    intro notice hnotice
    obtain ⟨message, rfl, -⟩ := exists_error_of_mem_answerWithoutTrace hnotice
    rfl
  unfold answer
  dsimp only
  rw [List.filter_append, hevents, herrors]
  rfl

theorem withoutEvents_answerExpression (options : Options) (limits : Limits) (source : String) :
    (answerExpression options limits source).withoutEvents =
      answerExpression (options.withPhases []) limits source := by
  unfold answerExpression Transcript.withoutEvents
  dsimp only
  rw [filter_isError_answer]
  rfl

theorem withoutEvents_answerLines (options : Options) (limits : Limits)
    (lines : List (List UInt8)) :
    (answerLines options limits lines).withoutEvents =
      answerLines (options.withPhases []) limits lines := by
  induction lines with
  | nil => rfl
  | cons line lines ih =>
      unfold answerLines
      split
      · rfl
      · split
        · exact ih
        · rw [← ih]
          unfold Transcript.prepend Transcript.withoutEvents
          dsimp only
          rw [List.filter_append, filter_isError_answer]
          rfl

/-! ## Responses -/

/-- The responses differ at most in lines of the errors that are not of errors. -/
structure Response.SameAnswer (r r' : Response) : Prop where
  code_eq : r.code = r'.code
  output_eq : r.output = r'.output
  errorLines_eq : errorLines r.errors = errorLines r'.errors

/-- Responses with the answer of one response have the same answer. -/
theorem Response.SameAnswer.of_common (h : r.SameAnswer r'') (h' : r'.SameAnswer r'') :
    r.SameAnswer r' :=
  ⟨h.code_eq.trans h'.code_eq.symm, h.output_eq.trans h'.output_eq.symm,
    h.errorLines_eq.trans h'.errorLines_eq.symm⟩

theorem sameAnswer_answerExpression (options : Options) (limits : Limits) (source : String) :
    (answerExpression options limits source).toResponse.SameAnswer
      (answerExpression (options.withPhases []) limits source).toResponse := by
  rw [← withoutEvents_answerExpression]
  exact ⟨rfl, rfl, (errorLines_withoutEvents fun _ => singleLine_of_mem_answer).symm⟩

theorem sameAnswer_answerInput (options : Options) (limits : Limits) (input : List UInt8) :
    (answerInput options limits input).toResponse.SameAnswer
      (answerInput (options.withPhases []) limits input).toResponse := by
  unfold answerInput
  rw [← withoutEvents_answerLines]
  exact ⟨rfl, rfl, (errorLines_withoutEvents fun _ => singleLine_of_mem_answerLines).symm⟩

/-- Phases in front of the arguments do not change the answer. -/
theorem sameAnswer_respond (phases : List Phase) (args : List String) (setting : Option String)
    (input : List UInt8) :
    (respond (phaseArguments phases ++ args) setting input).SameAnswer
      (respond args setting input) := by
  unfold respond Plan.ofArguments
  obtain ⟨e, he, he'⟩ | ⟨request, request', hread, hread', hrequest⟩ :=
    Except.map_eq_map_iff.1 (map_read_phaseArguments phases args setting)
  · rw [he, he']
    exact ⟨rfl, rfl, rfl⟩
  · rw [hread, hread']
    cases request with
    | help => cases request' <;> first | exact ⟨rfl, rfl, rfl⟩ | cases hrequest
    | version => cases request' <;> first | exact ⟨rfl, rfl, rfl⟩ | cases hrequest
    | calculate options =>
        cases request' with
        | help | version => cases hrequest
        | calculate options' =>
            obtain ⟨shown, rfl⟩ := Options.exists_withPhases (Request.calculate.inj hrequest)
            dsimp only
            rw [show (options.withPhases shown).limits = options.limits from rfl,
              show (options.withPhases shown).expression = options.expression from rfl]
            cases options.limits with
            | error e => exact ⟨rfl, rfl, rfl⟩
            | ok limits =>
                -- without phases the two are the same
                cases options.expression with
                | some source =>
                    exact (sameAnswer_answerExpression options limits source).of_common
                      (sameAnswer_answerExpression (options.withPhases shown) limits source)
                | none =>
                    exact (sameAnswer_answerInput options limits input).of_common
                      (sameAnswer_answerInput (options.withPhases shown) limits input)

/-- What is shown in front of the errors: the lines of the events that belong to the phases. -/
theorem errors_answerExpression (options : Options) (limits : Limits) (source : String) :
    (answerExpression options limits source).toResponse.errors =
      joinLines (((trace limits (trimmed source)).filter
        (options.phases.contains ·.phase)).map Event.line) ++
        (answerExpression (options.withPhases []) limits source).toResponse.errors := by
  have hevents : (traceNotices options limits (trimmed source)).map Notice.line =
      ((trace limits (trimmed source)).filter
        (options.phases.contains ·.phase)).map Event.line := by
    unfold traceNotices
    split
    · next hempty =>
      rw [List.isEmpty_iff.1 hempty]
      simp
    · rw [List.map_map]
      rfl
  rw [← hevents]
  show joinLines ((traceNotices options limits (trimmed source) ++ _).map Notice.line) = _
  rw [List.map_append, joinLines_append]
  rfl

/-! ## The main result -/

/-- The events on the way to an expression that is read from a text, and on the way to its value. -/
theorem exists_notes_of_parse {e : Expr} (h : parse limits source = .ok e) :
    ∃ tokens notes, Token.scan source = .ok tokens ∧ NotesReading tokens e notes ∧
      NotesEvaluation limits e (e.applications limits) ∧
      trace limits source = .tokens tokens.length source ::
        (notes.map .taken ++ .parsed e :: (e.applications limits).map .applied) := by
  have hwellFormed := (Expr.numerals_of_parse h).1
  obtain ⟨tokens, hscan, h⟩ := Except.bind_eq_ok_iff.1 h
  rw [Except.mapError_eq_ok_iff] at hscan h
  refine ⟨tokens, _, hscan, notesReading_of_ofTokens h,
    notesEvaluation_applications hwellFormed, ?_⟩
  unfold trace traceTokens
  rw [hscan]
  dsimp only
  rw [h]

/-- The lines of a trace by themselves say which operators have been taken, where and under which
least precedence, and which have been applied, to which operands and with which outcome. -/
theorem exists_notes_read_of_parse {e : Expr} (h : parse limits source = .ok e) :
    ∃ tokens notes, Token.scan source = .ok tokens ∧ NotesReading tokens e notes ∧
      NotesEvaluation limits e (e.applications limits) ∧
      ((trace limits source).map Event.line).filterMap readTaken? = notes ∧
      ((trace limits source).map Event.line).filterMap readApplied? =
        (e.applications limits).map Application.told := by
  obtain ⟨tokens, notes, hscan, hreading, hevaluation, htrace⟩ := exists_notes_of_parse h
  have hbetween : ∀ event ∈ trace limits source, ∀ note ∈ event.taken?,
      note.op.fixing = .between := by
    intro event hevent note hnote
    cases event with
    | taken note' =>
        cases hnote
        have hmem : note ∈ notes := by simpa [htrace] using hevent
        exact (hreading.of_mem note hmem).2.1
    | tokens | unrecognized | parsed | applied => cases hnote
  have htaken : ((trace limits source).map Event.line).filterMap readTaken? =
      (trace limits source).filterMap Event.taken? := by
    rw [List.filterMap_map]
    exact List.filterMap_congr fun event hevent => readTaken?_line (hbetween event hevent)
  have happlied : ((trace limits source).map Event.line).filterMap readApplied? =
      (trace limits source).filterMap fun event => event.applied?.map Application.told := by
    rw [List.filterMap_map]
    exact List.filterMap_congr fun event _ => readApplied?_line event
  refine ⟨tokens, notes, hscan, hreading, hevaluation, ?_, ?_⟩
  · rw [htaken, htrace]
    simp [List.filterMap_cons, Event.taken?, Function.comp_def]
  · rw [happlied, htrace]
    simp [Event.applied?]

/-- Phases that are shown change neither the exit code, nor the output, nor the lines of errors.
This holds of the program, which is asked for them in front of its other arguments, and of the
answers to an expression and to an input under any limits.  What the phases add for an expression is
the lines of their events, in front of its error.

Where a text can be read, the events are in this order: the number of its tokens; a note of each
operator between operands that the reader has met, which are those of the expression; the
expression; and a note of each operator that has been applied, in postorder and up to the first that
fails. -/
theorem trace_inert_and_faithful :
    (∀ (phases : List Phase) (args : List String) (setting : Option String) (input : List UInt8),
      (respond (phaseArguments phases ++ args) setting input).SameAnswer
        (respond args setting input)) ∧
    (∀ (options : Options) (limits : Limits) (source : String),
      (answerExpression options limits source).toResponse.SameAnswer
        (answerExpression (options.withPhases []) limits source).toResponse ∧
      (answerExpression options limits source).toResponse.errors =
        joinLines (((trace limits (trimmed source)).filter
          (options.phases.contains ·.phase)).map Event.line) ++
          (answerExpression (options.withPhases []) limits source).toResponse.errors) ∧
    (∀ (options : Options) (limits : Limits) (input : List UInt8),
      (answerInput options limits input).toResponse.SameAnswer
        (answerInput (options.withPhases []) limits input).toResponse) ∧
    ∀ (limits : Limits) (source : String) (e : Expr), parse limits source = .ok e →
      ∃ tokens notes, Token.scan source = .ok tokens ∧ NotesReading tokens e notes ∧
        NotesEvaluation limits e (e.applications limits) ∧
        trace limits source = .tokens tokens.length source ::
          (notes.map .taken ++ .parsed e :: (e.applications limits).map .applied) :=
  ⟨sameAnswer_respond, fun options limits source =>
    ⟨sameAnswer_answerExpression options limits source,
      errors_answerExpression options limits source⟩,
    sameAnswer_answerInput, fun _ _ _ => exists_notes_of_parse⟩

/-- The divisor is zero: all three operators have been met, and the division is the last that is
applied.  The lines of the events stand in front of the error. -/
theorem trace_up_to_division_by_zero :
    ∃ e tokens notes, parse .default "2-6/(1-1)" = .ok e ∧ NotesReading tokens e notes ∧
      NotesEvaluation .default e (e.applications .default) ∧
      (respond (phaseArguments [.parse, .eval] ++ ["2-6/(1-1)"]) none []).SameAnswer
        (respond ["2-6/(1-1)"] none []) ∧
      respond (phaseArguments [.parse, .eval] ++ ["2-6/(1-1)"]) none [] =
        ⟨1, "", "TRACE parse: infix '-' at 1 (min 0)\n" ++
          "TRACE parse: infix '/' at 3 (min 2)\n" ++
          "TRACE parse: infix '-' at 6 (min 0)\n" ++
          "DEBUG parse: parsed 2-(6/(1-1))\n" ++
          "TRACE eval: 1 - 1 = Ok(Decimal \x7b coefficient: 0, exponent: 0 \x7d)\n" ++
          "TRACE eval: 6 / 0 = Err(DivisionByZero)\n" ++
          "error: division by zero applying '/' to 6\n"⟩ := by
  have hparse : parse .default "2-6/(1-1)" =
      .ok (.binary .subtract (.number ⟨2, 0⟩) (.binary .divide (.number ⟨6, 0⟩)
        (.binary .subtract (.number ⟨1, 0⟩) (.number ⟨1, 0⟩)))) := by decide +kernel
  obtain ⟨hrespond, -, -, hread⟩ := trace_inert_and_faithful
  obtain ⟨tokens, notes, -, hreading, hevaluation, -⟩ := hread .default _ _ hparse
  exact ⟨_, tokens, notes, hparse, hreading, hevaluation,
    hrespond [.parse, .eval] ["2-6/(1-1)"] none [], by decide +kernel⟩

end Reckon.CommandLine
