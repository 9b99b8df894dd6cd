import Reckon.CommandLine.Lines
import Reckon.CommandLine.Options
import Reckon.Text.Blank

/-!
# Sessions

A session answers one expression from the arguments, or every line of the input in turn.  An
expression is answered by lines on the output and by notices: the events of its trace that the
options show, and its error if it has no value.  No line's answer depends on another line.

An expression without value makes a session of one expression fail, but not one of lines; that one
fails only at a line that is not text, where it ends.
-/

namespace Reckon.CommandLine

/-- A line for the reader of the errors. -/
inductive Notice where
  /-- Something that happened in the calculation. -/
  | event (e : Event)
  /-- What went wrong. -/
  | error (message : String)

/-- The line of a notice. -/
def Notice.line [Register] : Notice → String
  | event e => e.line
  | error message => s!"error: {message}"

/-- What is written for one expression. -/
structure Answer where
  /-- The lines on the output. -/
  output : List String
  notices : List Notice
  /-- Whether the expression has a value. -/
  hasValue : Bool

/-- What a session writes, and the code that it ends with. -/
structure Transcript where
  code : Nat
  output : List String
  notices : List Notice

namespace Transcript

/-- A session in which nothing was to be answered. -/
def silent : Transcript := ⟨0, [], []⟩

/-- A session that ends where the input is not text. -/
def brokenOff : Transcript := ⟨1, [], [.error "stream did not contain valid UTF-8"]⟩

/-- An answer and the session that follows it. -/
def prepend (a : Answer) (rest : Transcript) : Transcript :=
  ⟨rest.code, a.output ++ rest.output, a.notices ++ rest.notices⟩

end Transcript

variable [Register]

/-- The notices of the events that the options show. -/
def traceNotices (options : Options) (limits : Limits) (source : String) : List Notice :=
  if options.phases.isEmpty then []
  else ((trace limits source).filter (options.phases.contains ·.phase)).map .event

/-- The value of a text or its error, and before it the expression if the options show it. -/
def answerWithoutTrace (options : Options) (limits : Limits) (source : String) : Answer :=
  match parse limits source with
  | .error e => ⟨[], [.error e.message], false⟩
  | .ok e =>
    let shown := if options.showTree then [e.render] else []
    match e.eval limits with
    | .ok value => ⟨shown ++ [value.text], [], true⟩
    | .error e => ⟨shown, [.error e.message], false⟩

/-- The text without the blanks at its ends. -/
def trimmed (source : String) : String := String.ofList (Text.trim source.toList)

/-- What is written for a text, the blanks at its ends aside. -/
def answer (options : Options) (limits : Limits) (source : String) : Answer :=
  let plain := answerWithoutTrace options limits (trimmed source)
  { plain with notices := traceNotices options limits (trimmed source) ++ plain.notices }

/-- Answers one expression. -/
def answerExpression (options : Options) (limits : Limits) (source : String) : Transcript :=
  let a := answer options limits source
  ⟨if a.hasValue then 0 else 1, a.output, a.notices⟩

/-- Answers every line in turn but the blank ones. -/
def answerLines (options : Options) (limits : Limits) : List (List UInt8) → Transcript
  | [] => .silent
  | line :: lines =>
    match decodeLine? line with
    | none => .brokenOff
    | some source =>
      if source.toList.all Text.isBlank then answerLines options limits lines
      else .prepend (answer options limits source) (answerLines options limits lines)

/-- Answers every line of the input. -/
def answerInput (options : Options) (limits : Limits) (input : List UInt8) : Transcript :=
  answerLines options limits (splitLines input)

end Reckon.CommandLine
