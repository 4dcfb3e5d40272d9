import Reckoner.Builtin
import Reckoner.Datum.Arith
import Reckoner.Expr
import Reckoner.GaussRat
import Reckoner.RatMatrix

namespace Reckoner

/-- Where a builtin function was looked up. One from the session follows the session's unit of
angles, one from within a call measures in radians. -/
inductive Home where
  | session
  | call
  deriving DecidableEq

structure UserFunction where
  param : String
  body : Expr
  name : Option String

inductive Value where
  | rational (q : Rat)
  | complex (z : GaussRat)
  | matrix (m : RatMatrix)
  | function (f : UserFunction)
  | builtin (b : Builtin) (home : Home)
  /-- Plain data that a caller has handed in. -/
  | plain (d : Datum)

namespace Value

instance : Inhabited Value := ⟨plain .absent⟩

def kind : Value → ValueKind
  | rational _ => .rational
  | complex _ => .complex
  | matrix _ => .matrix
  | function _ => .function
  | builtin .. => .builtin
  | plain d => d.valueKind

def isAbsent : Value → Bool
  | plain .absent => true
  | _ => false

def number? : Value → Option PlainNumber
  | plain d => d.number?
  | _ => none

def functionText (f : UserFunction) : String :=
  "Function(name=" ++ f.name.getD "None" ++ ", arg=" ++ f.param ++ ", body="
    ++ f.body.toDatum.shown ++ ")"

def builtinText (b : Builtin) : String :=
  "<bound method Evaluator._builtin_" ++ b.name ++ " of <evaluator.Evaluator object at 0xADDR>>"

def text : Value → String
  | rational q => Rational.text q
  | complex z => z.text
  | matrix m => m.text
  | function f => functionText f
  | builtin b _ => builtinText b
  | plain d => d.shown

def rationalInFull (q : Rat) : String :=
  "Rational(" ++ Rational.text q ++ ")"

def rowInFull (r : List Rat) : String :=
  "[" ++ String.intercalate ", " (r.map rationalInFull) ++ "]"

def notated : Value → String
  | rational q => rationalInFull q
  | complex z => "Complex(" ++ Rational.text z.re ++ ", " ++ Rational.text z.im ++ ")"
  | matrix m => "Matrix([" ++ String.intercalate ", " (m.rows.map rowInFull) ++ "])"
  | function f => functionText f
  | builtin b _ => builtinText b
  | plain d => d.notated

def tooLong : Value → Bool
  | rational q => Rational.tooLong q
  | complex z => z.tooLong
  | matrix m => m.tooLong
  | plain (.int n) => Rational.isLong n.natAbs
  | _ => false

def text? (v : Value) : Except Error String :=
  if v.tooLong then .error .printedTooLong else .ok v.text

/-- Equality of values. Functions are not compared. -/
def same : Value → Value → Bool
  | rational p, rational q => p == q
  | complex w, complex z => w == z
  | matrix a, matrix b => a == b
  | plain c, plain d => c.same d
  | _, _ => false

end Value
end Reckoner
