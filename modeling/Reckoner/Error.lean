import Reckoner.SyntaxError
import Reckoner.Text.Quoted
import Reckoner.Value.Kind

namespace Reckoner

inductive ErrorKind where
  | form
  | type
  | value
  | name
  | zeroDivision
  | overflow
  | member
  | index
  | key
  | recursion
  deriving DecidableEq

/-- What can go wrong. A caller sees the `kind` and the `message` of it. -/
inductive Error where
  -- The form of a line.
  | form (cause : SyntaxError)
  | badTokens (cause : SyntaxError)
  | badGrammar (cause : SyntaxError)
  | angleUsage
  | angleCommand
  | plotUsage
  | plotBounds
  | plotPoints
  -- Names.
  | undefinedVariable (name : String)
  | undefinedFunction (name : String)
  | reservedName
  -- Operands of the wrong kind.
  | cannotCombine (verb : String) (left right : ValueKind)
  | cannotExponentiate (right : ValueKind)
  | cannotRaise (left right : ValueKind)
  | unsupported (sign : String) (left right : ValueKind)
  | badNegation (operand : ValueKind)
  | cannotConcatenate (left right : ValueKind)
  | cannotRepeat (count : ValueKind)
  | unusedArguments
  | complexPower
  | moduloOperands
  | exponentNotInteger
  | addNeedsMatrix
  | subNeedsMatrix
  | productNeedsMatrix
  | productNeedsMatrices
  | matrixElement (kind : ValueKind)
  | notNumeric (kind : ValueKind)
  | realOnly
  | noNorm (kind : ValueKind)
  | noInverse (kind : ValueKind)
  | noPlotValue (kind : ValueKind)
  | plotNeedsFunction
  | notCallable (name : String)
  | notFunction (name : String)
  | notRationalSource
  | notSubscriptable (kind : String)
  | notNumberInEquation (name : String)
  | noMember (kind : ValueKind) (member : String)
  -- Operands out of range.
  | divisionByZero
  | moduloByZero
  | plainDivisionByZero
  | plainModuloByZero
  | floatDivisionByZero
  | floatModuloByZero
  | fractionOverZero (numerator : Int)
  | zeroToNegative
  | quotientTooLarge
  | integerTooLarge
  | powerTooLarge
  | complexPowerTooLarge
  | magnitudeTooLarge
  | countTooLarge
  | rangeError
  | domainError
  | infiniteRatio
  | notANumberRatio
  | infiniteInteger
  | notANumberInteger
  | printedTooLong
  | readTooLong (digits : Nat)
  -- Texts that are no numbers.
  | badFraction (text : String)
  | badInteger (text : String)
  | badDecimal (text : String)
  -- Matrices.
  | emptyMatrix
  | raggedMatrix
  | sumShape
  | differenceShape
  | elementwiseShape
  | productShape
  | starShape
  | inverseNotSquare
  | powerNotSquare
  | singular
  -- Expressions without a meaning.
  | unknownOperator (sign : String)
  | unknownUnary (sign : String)
  | unknownNode (kind : String)
  | textIndex
  | listIndex
  | tupleIndex
  | missingKey
  | unknownAngleMode
  | complexPlotValue
  | tooFewPoints
  | sameBounds
  -- Equations.
  | notSimplePolynomial
  | equationOperator (sign : String)
  | equationUnary (sign : String)
  | equationNode (kind : String)
  -- Calls without end.
  | recursion
  deriving DecidableEq

namespace Error

def kind : Error → ErrorKind
  | form _ | badTokens _ | badGrammar _ | angleUsage | angleCommand | plotUsage | plotBounds
  | plotPoints => .form
  | undefinedVariable _ | undefinedFunction _ | reservedName => .name
  | cannotCombine .. | cannotExponentiate _ | cannotRaise .. | unsupported .. | badNegation _
  | cannotConcatenate .. | cannotRepeat _ | unusedArguments | complexPower | moduloOperands
  | exponentNotInteger | addNeedsMatrix | subNeedsMatrix | productNeedsMatrix
  | productNeedsMatrices | matrixElement _ | notNumeric _ | realOnly | noNorm _ | noInverse _
  | noPlotValue _ | plotNeedsFunction | notCallable _ | notFunction _ | notRationalSource
  | notSubscriptable _ | notNumberInEquation _ => .type
  | noMember .. => .member
  | divisionByZero | moduloByZero | plainDivisionByZero | plainModuloByZero | floatDivisionByZero
  | floatModuloByZero | fractionOverZero _ | zeroToNegative => .zeroDivision
  | quotientTooLarge | integerTooLarge | powerTooLarge | complexPowerTooLarge | magnitudeTooLarge
  | countTooLarge | rangeError | infiniteRatio | infiniteInteger => .overflow
  | domainError | notANumberRatio | notANumberInteger | printedTooLong | readTooLong _
  | badFraction _ | badInteger _ | badDecimal _ | emptyMatrix | raggedMatrix | sumShape
  | differenceShape | elementwiseShape | productShape | starShape | inverseNotSquare
  | powerNotSquare | singular | unknownOperator _ | unknownUnary _ | unknownNode _
  | unknownAngleMode | complexPlotValue | tooFewPoints | sameBounds | notSimplePolynomial
  | equationOperator _ | equationUnary _ | equationNode _ => .value
  | textIndex | listIndex | tupleIndex => .index
  | missingKey => .key
  | recursion => .recursion

def inQuotes (s : String) : String :=
  "'" ++ s ++ "'"

def digitLimit (found : String) : String :=
  "Exceeds the limit (4300 digits) for integer string conversion" ++ found
    ++ "; use sys.set_int_max_str_digits() to increase the limit"

def message : Error → String
  | form e => e.message
  | badTokens e => "Syntax error: " ++ e.message
  | badGrammar e => "Parse error: " ++ e.message
  | angleUsage => "Usage: angles [rad|deg]"
  | angleCommand => "Unknown angle mode: choose 'radians' or 'degrees'"
  | plotUsage => "Usage: plot <function> <start> <end> [points]"
  | plotBounds => "Start and end must be numeric"
  | plotPoints => "points must be an integer"
  | undefinedVariable s => "Variable " ++ inQuotes s ++ " is not defined"
  | undefinedFunction s => "Function " ++ inQuotes s ++ " is not defined"
  | reservedName =>
    "'i' is reserved for the imaginary unit and cannot be used as a variable name"
  | cannotCombine verb l r => "Cannot " ++ verb ++ " " ++ l.name ++ " and " ++ r.text
  | cannotExponentiate r => "Cannot exponentiate Rational with " ++ r.text
  | cannotRaise l r => "Cannot apply power to " ++ l.text ++ " and " ++ r.text
  | unsupported sign l r =>
    "unsupported operand type(s) for " ++ sign ++ ": " ++ inQuotes l.name ++ " and "
      ++ inQuotes r.name
  | badNegation k => "bad operand type for unary -: " ++ inQuotes k.name
  | cannotConcatenate l r =>
    "can only concatenate " ++ l.name ++ " (not \"" ++ r.name ++ "\") to " ++ l.name
  | cannotRepeat k => "can't multiply sequence by non-int of type " ++ inQuotes k.name
  | unusedArguments => "not all arguments converted during string formatting"
  | complexPower => "Complex power operation not supported"
  | moduloOperands => "Modulo operator supported only for rational/integer operands"
  | exponentNotInteger => "Matrix exponent must be an integer"
  | addNeedsMatrix => "Can only add Matrix to Matrix"
  | subNeedsMatrix => "Can only subtract Matrix from Matrix"
  | productNeedsMatrix => "Matrix multiplication requires another Matrix"
  | productNeedsMatrices => "Matrix multiplication '**' requires two matrices"
  | matrixElement k => "Matrix elements must be rational numbers, got " ++ k.text
  | notNumeric k => "Cannot convert " ++ k.text ++ " to numeric for builtin"
  | realOnly => "floor/ceil only supported for real arguments"
  | noNorm k => "norm() not supported for type " ++ k.text
  | noInverse k => "inv() not supported for type " ++ k.text
  | noPlotValue k => "Cannot convert " ++ k.text ++ " to float for plotting"
  | plotNeedsFunction => "plot_function expects a Function object"
  | notCallable s => inQuotes s ++ " is not callable"
  | notFunction s => inQuotes s ++ " is not a function"
  | notRationalSource => "argument should be a string or a Rational instance"
  | notSubscriptable k => inQuotes k ++ " object is not subscriptable"
  | notNumberInEquation s => "Variable " ++ inQuotes s ++ " must be a number in equations"
  | noMember k m => inQuotes k.name ++ " object has no attribute " ++ inQuotes m
  | divisionByZero => "Division by zero"
  | moduloByZero => "Modulo by zero"
  | plainDivisionByZero => "division by zero"
  | plainModuloByZero => "integer modulo by zero"
  | floatDivisionByZero => "float division by zero"
  | floatModuloByZero => "float modulo"
  | fractionOverZero n => "Fraction(" ++ toString n ++ ", 0)"
  | zeroToNegative => "0.0 cannot be raised to a negative power"
  | quotientTooLarge => "integer division result too large for a float"
  | integerTooLarge => "int too large to convert to float"
  | powerTooLarge => "(34, 'Numerical result out of range')"
  | complexPowerTooLarge => "complex exponentiation"
  | magnitudeTooLarge => "absolute value too large"
  | countTooLarge => "cannot fit 'int' into an index-sized integer"
  | rangeError => "math range error"
  | domainError => "math domain error"
  | infiniteRatio => "cannot convert Infinity to integer ratio"
  | notANumberRatio => "cannot convert NaN to integer ratio"
  | infiniteInteger => "cannot convert float infinity to integer"
  | notANumberInteger => "cannot convert float NaN to integer"
  | printedTooLong => digitLimit ""
  | readTooLong n => digitLimit (": value has " ++ toString n ++ " digits")
  | badFraction s => "Invalid literal for Fraction: " ++ Text.quoted s
  | badInteger s =>
    "invalid literal for int() with base 10: " ++ String.ofList ((Text.quoted s).toList.take 200)
  | badDecimal s => "could not convert string to float: " ++ Text.quoted s
  | emptyMatrix => "Matrix cannot be empty"
  | raggedMatrix => "All rows must have the same length"
  | sumShape => "Matrices must have same dimensions for addition"
  | differenceShape => "Matrices must have same dimensions for subtraction"
  | elementwiseShape => "Matrix dimensions must match for element-wise multiplication"
  | productShape => "Matrix dimensions incompatible for multiplication"
  | starShape => "Matrix dimensions incompatible for '*' operation"
  | inverseNotSquare => "Matrix inverse requires a square matrix"
  | powerNotSquare => "Matrix power requires a square matrix"
  | singular => "Matrix is singular and non-invertible"
  | unknownOperator s => "Unknown operator: " ++ s
  | unknownUnary s => "Unknown unary operator: " ++ s
  | unknownNode s => "Unknown node type: " ++ s
  | textIndex => "string index out of range"
  | listIndex => "list index out of range"
  | tupleIndex => "tuple index out of range"
  | missingKey => "0"
  | unknownAngleMode => "Unknown angle mode: choose 'radians' or 'degrees'"
  | complexPlotValue => "Complex value with non-zero imaginary part cannot be plotted"
  | tooFewPoints => "points must be at least 2"
  | sameBounds => "start and end must differ"
  | notSimplePolynomial => "Only simple polynomial forms are supported"
  | equationOperator s => "Operator " ++ inQuotes s ++ " not supported in polynomial equations"
  | equationUnary s => "Unary operator " ++ inQuotes s ++ " not supported"
  | equationNode s => "Node type " ++ inQuotes s ++ " not supported in equations"
  | recursion => "maximum recursion depth exceeded while calling a Python object"

end Error
end Reckoner
