import Reckon.CommandLine.Session

/-!
# The command line

The program reads its arguments, sets the limits and starts a session.  Wrong arguments end it
with code two, and limits out of range with code one, before anything is evaluated.  The input is
looked at only where no expression is given.
-/

namespace Reckon.CommandLine

/-- The name and number of this version. -/
def versionLine : String := "minicalc 0.1.0"

/-- How the program is called. -/
def usageLine : String := "Usage: minicalc [OPTIONS] [EXPRESSION]"

/-- What is told to those who ask for help. -/
def helpLines : List String :=
  ["minicalc evaluates arithmetic expressions over 28-digit decimals",
    "",
    usageLine,
    "",
    "Arguments:",
    "  [EXPRESSION]  Expression to evaluate. Without it, expressions are read from standard input,",
    "                one per line",
    "",
    "Options:",
    "  -p, --precision <PRECISION>  Number of significant digits kept by every result",
    "                               [env: MINICALC_PRECISION=] [default: 28]",
    "      --max-depth <MAX_DEPTH>  Deepest nesting of parentheses and operators accepted",
    "                               [default: 512]",
    "      --log-enable <PHASE>     Print trace output for a phase to stderr; may be repeated",
    "                               [possible values: tokenize, parse, eval]",
    "      --tree                   Print the parsed expression in canonical form before its value",
    "  -h, --help                   Print help",
    "  -V, --version                Print version"]

/-- What the program answers. -/
structure Response where
  /-- The exit code. -/
  code : Nat
  output : String
  errors : String
  deriving DecidableEq

/-- Lines as one text, each with its end. -/
def joinLines (lines : List String) : String := String.join (lines.map (· ++ "\n"))

/-- The response that a session gives. -/
def Transcript.toResponse [Register] (t : Transcript) : Response :=
  ⟨t.code, joinLines t.output, joinLines (t.notices.map Notice.line)⟩

/-- What there is to do. -/
inductive Plan where
  /-- The response is settled by the arguments. -/
  | respond (response : Response)
  /-- The lines of the input are to be answered. -/
  | answerInput (options : Options) (limits : Limits)

/-- What the arguments, and the setting of the precision in the environment, give to do. -/
def Plan.ofArguments [Register] (args : List String) (precision : Option String) : Plan :=
  match Request.read args precision with
  | .error e => .respond ⟨2, "", joinLines [s!"error: {e.message}", "", usageLine]⟩
  | .ok .help => .respond ⟨0, joinLines helpLines, ""⟩
  | .ok .version => .respond ⟨0, joinLines [versionLine], ""⟩
  | .ok (.calculate options) =>
    match options.limits with
    | .error e => .respond (Transcript.toResponse ⟨1, [], [.error e.message]⟩)
    | .ok limits =>
      match options.expression with
      | some source => .respond (answerExpression options limits source).toResponse
      | none => .answerInput options limits

/-- The response to arguments, the setting in the environment and the input. -/
def respond [Register] (args : List String) (precision : Option String) (input : List UInt8) :
    Response :=
  match Plan.ofArguments args precision with
  | .respond response => response
  | .answerInput options limits => (answerInput options limits input).toResponse

end Reckon.CommandLine
