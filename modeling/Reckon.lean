import Reckon.Main
import Reckon.Proofs.Decimal.Value
import Reckon.Proofs.Decimal.Rounding
import Reckon.Proofs.NearestEven
import Reckon.Proofs.Decimal.Rounded
import Reckon.Proofs.Decimal.Order
import Reckon.Proofs.Decimal.TotalOrder
import Reckon.Proofs.Decimal.Sum
import Reckon.Proofs.Decimal.ExactQuotient
import Reckon.Proofs.Decimal.IdealExponent
import Reckon.Proofs.Decimal.Quotient
import Reckon.Proofs.Decimal.Remainder
import Reckon.Proofs.Decimal.Power
import Reckon.Proofs.Decimal.Fractional
import Reckon.Proofs.Decimal.Logarithm
import Reckon.Proofs.Decimal.Congruence
import Reckon.Proofs.Expr.NormalForm
import Reckon.Proofs.Expr.FactorialOperand
import Reckon.Proofs.Expr.Exact
import Reckon.Proofs.Expr.Congruence
import Reckon.Proofs.Grammar.Phrase
import Reckon.Proofs.Grammar.Sound
import Reckon.Proofs.Grammar.Complete
import Reckon.Proofs.Decimal.Numeral
import Reckon.Proofs.Token.Layout
import Reckon.Proofs.Token.Spacing
import Reckon.Proofs.Token.Unrecognized
import Reckon.Proofs.Grammar.DepthLimit
import Reckon.Proofs.Grammar.DepthRoom
import Reckon.Proofs.Grammar.DepthExact
import Reckon.Proofs.Grammar.OpenParentheses
import Reckon.Proofs.Grammar.Guards
import Reckon.Proofs.Grammar.ViablePrefix
import Reckon.Proofs.Expr.RoundTrip
import Reckon.Proofs.Decimal.ExactSum
import Reckon.Proofs.Decimal.Faithful
import Reckon.Proofs.Decimal.FaithfulPower
import Reckon.Proofs.Grammar.ReadableTokens
import Reckon.Proofs.Expr.Faithful
import Reckon.Proofs.CommandLine.Lines
import Reckon.Proofs.CommandLine.Session
import Reckon.Proofs.CommandLine.Phases
import Reckon.Proofs.Messages
import Reckon.Proofs.Trace.Reading
import Reckon.Proofs.Trace.Evaluation
import Reckon.Proofs.Trace.Lines
import Reckon.Proofs.Trace.ReadBack
import Reckon.Proofs.CommandLine.Tracing
import Reckon.Proofs.Decimal.Nearest
import Reckon.Proofs.Decimal.CorrectRounding
import Reckon.Proofs.Decimal.RegisterEnds
import Reckon.Proofs.Decimal.ExactMean
import Reckon.Proofs.Decimal.Drift
import Reckon.Proofs.Decimal.PowerAccuracy
import Reckon.Proofs.Series.Artanh
import Reckon.Proofs.Series.Logarithm
import Reckon.Proofs.Series.Exponential
import Reckon.Proofs.Series.Passes
import Reckon.Proofs.Decimal.FractionalPower
import Reckon.Proofs.Decimal.PowerPasses
import Reckon.Proofs.Decimal.HugePower
import Reckon.Proofs.Decimal.SignSymmetry
import Reckon.Proofs.Decimal.Monotone
import Reckon.Proofs.Decimal.Factorial
import Reckon.Proofs.Expr.ErrorCases
import Reckon.Proofs.Decimal.Written
import Reckon.Proofs.Decimal.LiteralRoundTrip
import Reckon.Proofs.Decimal.ShownText
