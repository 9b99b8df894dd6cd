import Reckon.Limits
import Reckon.Trace

/-!
# Command line options

Arguments are read from the first to the last.  One that starts with a hyphen is an option, until
a lone `--` ends the options; a hyphen by itself is an ordinary argument.  An option that takes a
value has it attached, or takes the next argument unless that starts with a hyphen.  At most one
argument is left over, and it is the expression.  Asking for the version or for help is answered
as soon as it is met; whatever is wrong before it is reported instead.

The precision may also be set in the environment.  That setting counts when no option gives one,
and only then is it read at all.
-/

namespace Reckon.CommandLine

/-- The options that there are. -/
inductive Flag where
  | precision
  | maxDepth
  | logEnable
  | tree
  | help
  | version
  deriving DecidableEq

namespace Flag

/-- The option as it is shown to the user. -/
def label : Flag → String
  | precision => "--precision <PRECISION>"
  | maxDepth => "--max-depth <MAX_DEPTH>"
  | logEnable => "--log-enable <PHASE>"
  | tree => "--tree"
  | help => "--help"
  | version => "--version"

/-- The option with a long name. -/
def ofLong? (name : String) : Option Flag :=
  match name with
  | "precision" => some precision
  | "max-depth" => some maxDepth
  | "log-enable" => some logEnable
  | "tree" => some tree
  | "help" => some help
  | "version" => some version
  | _ => none

end Flag

/-- What is wrong with the arguments. -/
inductive UsageError where
  /-- There is no such option, or an expression was already given. -/
  | unexpectedArgument (arg : String)
  /-- The option takes a value and has none. -/
  | missingValue (flag : Flag)
  /-- The value is none that the option takes. -/
  | invalidValue (value : String) (flag : Flag)
  /-- The option takes no value and has one. -/
  | unexpectedValue (value : String) (flag : Flag)
  /-- The option may be given once and was given again. -/
  | repeated (flag : Flag)
  deriving DecidableEq

/-- The wording of wrong arguments. -/
def UsageError.message : UsageError → String
  | unexpectedArgument arg => s!"unexpected argument '{arg}' found"
  | missingValue flag => s!"a value is required for '{flag.label}' but none was supplied"
  | invalidValue value flag => s!"invalid value '{value}' for '{flag.label}'"
  | unexpectedValue value flag =>
    s!"unexpected value '{value}' for '{flag.label}' found; no more were expected"
  | repeated flag => s!"the argument '{flag.label}' cannot be used multiple times"

/-- What the arguments say. -/
structure Options where
  precision : Option Nat
  maxDepth : Option Nat
  /-- The phases whose events are shown. -/
  phases : List Phase
  /-- Whether the expression is shown before its value. -/
  showTree : Bool
  /-- The expression to evaluate; without one, expressions are read from the input. -/
  expression : Option String

/-- What the arguments ask for. -/
inductive Request where
  | help
  | version
  | calculate (options : Options)

namespace Options

/-- No argument has been read. -/
def empty : Options := ⟨none, none, [], false, none⟩

/-- Reads a whole number of digits. -/
def readDigits? (text : List Char) : Option Nat :=
  if text.isEmpty || !text.all Char.isDigit then none else some (Nat.ofDigitChars 10 text 0)

/-- Reads a number below the bound; a plus may stand in front. -/
def readBelow? (bound : Nat) (text : List Char) : Option Nat :=
  let digits := match text with
    | '+' :: digits => digits
    | digits => digits
  (readDigits? digits).filter (· < bound)

/-- Reads a precision: a number of thirty-two bits, or zero with a minus in front. -/
def readPrecision? (value : String) : Option Nat :=
  match value.toList with
  | '-' :: digits => (readDigits? digits).filter (· = 0)
  | text => readBelow? 4294967296 text

/-- Reads a depth: a number of sixty-four bits. -/
def readDepth? (value : String) : Option Nat := readBelow? 18446744073709551616 value.toList

/-- The phase with a name. -/
def readPhase? (value : String) : Option Phase :=
  [Phase.tokenize, .parse, .eval].find? (·.name == value)

/-- The precision that the environment sets. -/
def precisionOf? (value : String) : Except UsageError Nat :=
  match readPrecision? value with
  | some n => .ok n
  | none => .error (.invalidValue value .precision)

/-- Sets an option that takes a value. -/
def setValue (options : Options) (flag : Flag) (value : String) : Except UsageError Options :=
  match flag with
  | .precision =>
    if options.precision.isSome then .error (.repeated flag)
    else do pure { options with precision := some (← precisionOf? value) }
  | .maxDepth =>
    if options.maxDepth.isSome then .error (.repeated flag)
    else
      match readDepth? value with
      | some n => .ok { options with maxDepth := some n }
      | none => .error (.invalidValue value flag)
  | .logEnable =>
    match readPhase? value with
    | some phase => .ok { options with phases := options.phases ++ [phase] }
    | none => .error (.invalidValue value flag)
  | .tree | .help | .version => .error (.unexpectedValue value flag)

/-- Sets the option that shows the expression. -/
def setTree (options : Options) : Except UsageError Options :=
  if options.showTree then .error (.repeated .tree) else .ok { options with showTree := true }

/-- Takes an argument that is no option. -/
def setExpression (options : Options) (arg : String) : Except UsageError Options :=
  if options.expression.isSome then .error (.unexpectedArgument arg)
  else .ok { options with expression := some arg }

end Options

/-- What an argument is by its form. -/
inductive Argument where
  /-- It ends the options. -/
  | endOfOptions
  /-- It is an option, with the value that is attached to it. -/
  | flag (flag : Flag) (value : Option String)
  /-- It has the form of an option, and there is no such option. -/
  | unknown
  /-- It has not the form of an option. -/
  | plain

namespace Argument

/-- A long option: a name, and behind an equals sign a value. -/
def ofLong (text : List Char) : Argument :=
  let name := String.ofList (text.takeWhile (· != '='))
  let value := match text.dropWhile (· != '=') with
    | _ :: value => some (String.ofList value)
    | [] => none
  match Flag.ofLong? name with
  | some f => flag f value
  | none => unknown

/-- A short option: the precision has its value attached, with or without an equals sign; the
others are answered before what follows them is looked at. -/
def ofShort (c : Char) (text : List Char) : Argument :=
  match c with
  | 'p' =>
    match text with
    | [] => flag .precision none
    | '=' :: value => flag .precision (some (String.ofList value))
    | value => flag .precision (some (String.ofList value))
  | 'h' => flag .help none
  | 'V' => flag .version none
  | _ => unknown

/-- The form of an argument. -/
def ofString (arg : String) : Argument :=
  match arg.toList with
  | ['-', '-'] => endOfOptions
  | '-' :: '-' :: text => ofLong text
  | '-' :: c :: text => ofShort c text
  | _ => plain

end Argument

/-- Whether an argument can be the value of the option before it. -/
def isValue (arg : String) : Bool := arg == "-" || !arg.startsWith "-"

/-- Reads arguments of which none is an option. -/
def readPlain : Options → List String → Except UsageError Options
  | options, [] => .ok options
  | options, arg :: args => do readPlain (← options.setExpression arg) args

/-- Reads the arguments that follow those that the options were read from. -/
def readArguments (options : Options) : List String → Except UsageError Request
  | [] => .ok (.calculate options)
  | arg :: args =>
    match Argument.ofString arg with
    | .endOfOptions => do pure (.calculate (← readPlain options args))
    | .unknown => .error (.unexpectedArgument arg)
    | .plain => do readArguments (← options.setExpression arg) args
    | .flag f (some value) => do readArguments (← options.setValue f value) args
    | .flag .help none => .ok .help
    | .flag .version none => .ok .version
    | .flag .tree none => do readArguments (← options.setTree) args
    | .flag f none =>
      match args with
      | value :: args =>
        if isValue value then do readArguments (← options.setValue f value) args
        else .error (.missingValue f)
      | [] => .error (.missingValue f)

/-- Fills in the precision from the environment where no option gives one. -/
def Options.withEnvironment (options : Options) (precision : Option String) :
    Except UsageError Options :=
  match options.precision, precision with
  | none, some value => do pure { options with precision := some (← precisionOf? value) }
  | _, _ => .ok options

/-- Reads the arguments, and the setting of the precision in the environment. -/
def Request.read (args : List String) (precision : Option String) :
    Except UsageError Request := do
  match ← readArguments .empty args with
  | .calculate options => do pure (.calculate (← options.withEnvironment precision))
  | request => pure request

/-- The limits that the options set. -/
def Options.limits (options : Options) : Except LimitsError Limits := do
  let limits ← match options.precision with
    | some digits => Limits.default.withPrecision digits
    | none => pure Limits.default
  match options.maxDepth with
  | some depth => limits.withMaxDepth depth
  | none => pure limits

end Reckon.CommandLine
