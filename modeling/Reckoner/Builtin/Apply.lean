import Reckoner.Double.Complex
import Reckoner.Value.Arith

namespace Reckoner.Builtin

def toComplex (v : Value) : Except Error Double.Complex :=
  match v with
  | .rational q => do return .ofReal (← Rational.toDouble q)
  | .complex z => do
    let x ← Rational.toDouble z.re
    let y ← Rational.toDouble z.im
    return ⟨x, y⟩
  | v =>
    match v.number? with
    | some n => do return .ofReal (← n.toDouble)
    | none => .error (.notNumeric v.kind)

def ofReal (x : Float) : Except Error Value := do
  return .rational (Rational.settle (← Rational.ofDouble x))

/-- A complex double as a value, a rational if it is real. -/
def ofComplex (z : Double.Complex) : Except Error Value := do
  let re := Rational.settle (← Rational.ofDouble z.re)
  let im := Rational.settle (← Rational.ofDouble z.im)
  return if im = 0 then .rational re else .complex ⟨re, im⟩

def degree : Float :=
  Double.Complex.pi / 180.0

/-- An angle in radians. Only real angles are in degrees. -/
def angle (mode : AngleMode) (z : Double.Complex) : Double.Complex :=
  if mode = .degrees ∧ z.im == 0.0 then .ofReal (z.re * degree) else z

def absolute (v : Value) : Except Error Value := do
  let z ← toComplex v
  ofReal (← z.abs)

/-- The root of the sum of the squares of the entries, added row by row. -/
def matrixNorm (m : RatMatrix) : Except Error Value := do
  let total ← m.rows.flatten.foldlM
    (fun (total : Float) q => do
      let x ← Rational.toDouble q
      return total + (x * x + 0.0)) 0.0
  ofReal total.sqrt

def normOf (v : Value) : Except Error Value :=
  match v with
  | .rational _ | .complex _ => absolute v
  | .matrix m => matrixNorm m
  | v => if v.number?.isSome then absolute v else .error (.noNorm v.kind)

def inverseOf (v : Value) : Except Error Value :=
  match v with
  | .matrix m => .matrix <$> Value.inverseMatrix m
  | .rational q => Value.divRational 1 q
  | .complex z =>
    match z.inv? with
    | none => .error .divisionByZero
    | some r => .ok (.complex r)
  | v =>
    match v.number? with
    | some n =>
      if n.isZero then .error .divisionByZero else do Value.divRational 1 (← n.settled)
    | none => .error (.noInverse v.kind)

/-- The integer goes by the double nearest to the value, not by the value itself. -/
def rounded (round : Rat → Int) (v : Value) : Except Error Value := do
  let z ← toComplex v
  if z.im != 0.0 then .error .realOnly
  else if z.re.isNaN then .error .notANumberInteger
  else if Double.isInfinite z.re then .error .infiniteInteger
  else return .rational (round (Double.value z.re))

/-- The value of a builtin function. Most go by way of doubles, and their results have small
denominators; inverses are exact. -/
def apply (b : Builtin) (mode : AngleMode) (v : Value) : Except Error Value :=
  match b with
  | sin => do ofComplex (← (angle mode (← toComplex v)).sin)
  | cos => do ofComplex (← (angle mode (← toComplex v)).cos)
  | tan => do ofComplex (← (angle mode (← toComplex v)).tan)
  | exp => do ofComplex (← (← toComplex v).exp)
  | log => do ofComplex (← (← toComplex v).log)
  | sqrt => do ofComplex (← toComplex v).sqrt
  | norm => normOf v
  | inv => inverseOf v
  | abs => absolute v
  | floor => rounded Rat.floor v
  | ceil => rounded Rat.ceil v

end Reckoner.Builtin
