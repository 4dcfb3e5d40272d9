import Reckoner.Body
import Reckoner.Builtin
import Reckoner.Builtin.Apply
import Reckoner.Clock
import Reckoner.Console
import Reckoner.Datum
import Reckoner.Datum.Arith
import Reckoner.Datum.Json
import Reckoner.Decimal.Layout
import Reckoner.Decimal.Shortest
import Reckoner.Double
import Reckoner.Double.Complex
import Reckoner.Double.Hypot
import Reckoner.Double.Power
import Reckoner.Equation
import Reckoner.Equation.Expand
import Reckoner.Error
import Reckoner.Eval
import Reckoner.Expr
import Reckoner.Expr.Node
import Reckoner.Expr.Parser
import Reckoner.Expr.Printer
import Reckoner.Expr.Subst
import Reckoner.GaussRat
import Reckoner.History
import Reckoner.Inline
import Reckoner.Main
import Reckoner.Numeral
import Reckoner.Plot
import Reckoner.Polynomial
import Reckoner.Proofs.Equation
import Reckoner.Proofs.Equation.Answers
import Reckoner.Proofs.Eval
import Reckoner.Proofs.Expr
import Reckoner.Proofs.Grammar
import Reckoner.Proofs.Grammar.Lines
import Reckoner.Proofs.Grammar.Reading
import Reckoner.Proofs.Grammar.Steps
import Reckoner.Proofs.Grammar.Unambiguous
import Reckoner.Proofs.Inlining
import Reckoner.Proofs.Kinds
import Reckoner.Proofs.Lexing
import Reckoner.Proofs.Literal
import Reckoner.Proofs.Outcome
import Reckoner.Proofs.Polynomial
import Reckoner.Proofs.Request
import Reckoner.Proofs.Scope
import Reckoner.RatMatrix
import Reckoner.RatMatrix.Inverse
import Reckoner.Rational.Approximate
import Reckoner.Rational.Power
import Reckoner.Rational.Read
import Reckoner.Rational.Text
import Reckoner.Scope
import Reckoner.Session
import Reckoner.Sorted
import Reckoner.SyntaxError
import Reckoner.Text.Blank
import Reckoner.Text.Cased
import Reckoner.Text.Digit
import Reckoner.Text.Lines
import Reckoner.Text.Lower
import Reckoner.Text.Quoted
import Reckoner.Text.Visible
import Reckoner.Token
import Reckoner.Token.Lexer
import Reckoner.Value
import Reckoner.Value.Arith
import Reckoner.Value.Kind
import Reckoner.Value.Make
import Reckoner.Proofs.Simulation
import Reckoner.Proofs.Calls
import Reckoner.Proofs.Renaming
import Reckoner.Proofs.Grammar.Proper
import Reckoner.Proofs.Session
import Reckoner.Proofs.Reachable
import Reckoner.Proofs.Relevance
import Reckoner.Proofs.Grammar.Places
import Reckoner.Proofs.Spelling
import Reckoner.Proofs.Assignment
import Reckoner.Proofs.ReadBack
import Reckoner.Proofs.Grammar.Signs
import Reckoner.Proofs.Written
import Reckoner.Proofs.Printing
import Reckoner.Proofs.Associativity
import Reckoner.Proofs.Parentheses
import Reckoner.Proofs.Rereading
import Reckoner.Proofs.Elimination
import Reckoner.Proofs.Powers
import Reckoner.Proofs.History
import Reckoner.Proofs.Alike
import Reckoner.Proofs.Grammar.Alike
import Reckoner.Proofs.Recasing.Letters
import Reckoner.Proofs.Recasing.Lines
import Reckoner.Proofs.Recasing.Eval
import Reckoner.Proofs.Recasing.Texts
import Reckoner.Proofs.Recasing.Bodies
import Reckoner.Proofs.Recasing.Equations
import Reckoner.Proofs.Recasing.Commands
import Reckoner.Proofs.Recasing.Session
import Reckoner.Proofs.Polynomial.Terms
import Reckoner.Proofs.Computation
import Reckoner.Proofs.Approximate
import Reckoner.Proofs.Double
import Reckoner.Proofs.Polynomial.Values
import Reckoner.Proofs.Equation.Reduction
import Reckoner.Proofs.Equation.Swap
import Reckoner.Proofs.Equation.Solutions
import Reckoner.Proofs.Equation.Radicals
import Reckoner.Proofs.Equation.Unknown
import Reckoner.Proofs.Equation.Comparison
import Reckoner.Proofs.Formula
import Reckoner.Proofs.Polynomial.Text
import Reckoner.Proofs.Integral
import Reckoner.Proofs.Body
import Reckoner.Proofs.Product
import Reckoner.Proofs.Gaussian
import Reckoner.Proofs.Unfolding
import Reckoner.Proofs.CallGraph
import Reckoner.Proofs.Star
import Reckoner.Proofs.Grammar.Leaves
import Reckoner.Proofs.Lexing.Shape
import Reckoner.Proofs.Lexing.Layout
import Reckoner.Proofs.Double.Decimals
import Reckoner.Proofs.Numeral
import Reckoner.Proofs.Frame
import Reckoner.Proofs.Scaling
import Reckoner.Proofs.Double.Rounding
import Reckoner.Proofs.Double.Unpacked
import Reckoner.Proofs.Double.Arithmetic
import Reckoner.Proofs.Double.Neighbours
import Reckoner.Proofs.Double.Hypot
import Reckoner.Proofs.Builtin
import Reckoner.Proofs.Plot
import Reckoner.Proofs.Lexing.Spacing
import Reckoner.Proofs.Grammar.Programs
import Reckoner.Proofs.Grammar.Progress
import Reckoner.Proofs.Summands
