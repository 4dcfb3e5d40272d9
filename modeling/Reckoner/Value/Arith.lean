import Reckoner.RatMatrix.Inverse
import Reckoner.Rational.Power
import Reckoner.Value

namespace Reckoner.Value

def leftError (sign : String) (a b : Value) : Error :=
  match a, b with
  | .plain d, b => if sign = "+" then d.sumError b.kind
    else if sign = "*" then d.productError b.kind
    else if sign = "%" then d.remainderError b.kind
    else .unsupported sign d.valueKind b.kind
  | a, .plain d =>
    if sign = "*" ∧ d.isSequence then .cannotRepeat a.kind else .unsupported sign a.kind b.kind
  | a, b => .unsupported sign a.kind b.kind

def add (a b : Value) : Except Error Value :=
  match a, b with
  | rational p, rational q => .ok (rational (p + q))
  | rational p, complex z => .ok (complex ((GaussRat.ofRat p).add z))
  | rational p, b =>
    match b.number? with
    | some n => do return rational (p + (← n.toRat))
    | none => .error (.cannotCombine "add" .rational b.kind)
  | complex w, complex z => .ok (complex (w.add z))
  | complex w, rational q => .ok (complex ⟨w.re + q, w.im⟩)
  | complex w, b =>
    match b.number? with
    | some n => do return complex ⟨w.re + (← n.settled), w.im⟩
    | none => .error (.cannotCombine "add" .complex b.kind)
  | matrix m, matrix n =>
    if m.sameShape n then .ok (matrix (m.pointwise (· + ·) n)) else .error .sumShape
  | matrix _, _ => .error .addNeedsMatrix
  | plain c, plain d => plain <$> c.add d
  | a, b => .error (leftError "+" a b)

def sub (a b : Value) : Except Error Value :=
  match a, b with
  | rational p, rational q => .ok (rational (p - q))
  | rational p, complex z => .ok (complex ((GaussRat.ofRat p).sub z))
  | rational p, b =>
    match b.number? with
    | some n => do return rational (p - (← n.toRat))
    | none => .error (.cannotCombine "subtract" .rational b.kind)
  | complex w, complex z => .ok (complex (w.sub z))
  | complex w, rational q => .ok (complex ⟨w.re - q, w.im⟩)
  | complex w, b =>
    match b.number? with
    | some n => do return complex ⟨w.re - (← n.settled), w.im⟩
    | none => .error (.cannotCombine "subtract" .complex b.kind)
  | matrix m, matrix n =>
    if m.sameShape n then .ok (matrix (m.pointwise (· - ·) n)) else .error .differenceShape
  | matrix _, _ => .error .subNeedsMatrix
  | plain c, plain d => plain <$> c.sub d
  | a, b => .error (leftError "-" a b)

/-- The product. Two matrices are multiplied entry by entry. -/
def mul (a b : Value) : Except Error Value :=
  match a, b with
  | rational p, rational q => .ok (rational (p * q))
  | rational p, complex z => .ok (complex ((GaussRat.ofRat p).mul z))
  | rational p, b =>
    match b.number? with
    | some n => do return rational (p * (← n.toRat))
    | none => .error (.cannotCombine "multiply" .rational b.kind)
  | complex w, complex z => .ok (complex (w.mul z))
  | complex w, rational q => .ok (complex ⟨w.re * q, w.im * q⟩)
  | complex w, b =>
    match b.number? with
    | some n => do
      let q ← n.settled
      return complex ⟨w.re * q, w.im * q⟩
    | none => .error (.cannotCombine "multiply" .complex b.kind)
  | matrix m, matrix n =>
    if m.sameShape n then .ok (matrix (m.pointwise (· * ·) n)) else .error .elementwiseShape
  | matrix m, rational q => .ok (matrix (m.scale q))
  | matrix m, b =>
    match b.number? with
    | some n => do return matrix (m.scale (← n.settled))
    | none => .error (.cannotCombine "multiply" .matrix b.kind)
  | plain c, plain d => plain <$> c.mul d
  | a, b => .error (leftError "*" a b)

def divRational (p q : Rat) : Except Error Value :=
  if q = 0 then .error .divisionByZero else .ok (rational (p / q))

def divComplex (w z : GaussRat) : Except Error Value :=
  match w.div? z with
  | none => .error .divisionByZero
  | some r => .ok (complex r)

def divParts (w : GaussRat) (q : Rat) : Except Error Value :=
  if q = 0 then .error .divisionByZero else .ok (complex ⟨w.re / q, w.im / q⟩)

def div (a b : Value) : Except Error Value :=
  match a, b with
  | rational p, rational q => divRational p q
  | rational p, complex z => divComplex (GaussRat.ofRat p) z
  | rational p, b =>
    match b.number? with
    | some n =>
      if n.isZero then .error .divisionByZero else do divRational p (← n.toRat)
    | none => .error (.cannotCombine "divide" .rational b.kind)
  | complex w, complex z => divComplex w z
  | complex w, rational q => divParts w q
  | complex w, b =>
    match b.number? with
    | some n => do divParts w (← n.settled)
    | none => .error (.cannotCombine "divide" .complex b.kind)
  | plain c, plain d => plain <$> c.div d
  | a, b => .error (leftError "/" a b)

def modRational (p q : Rat) : Except Error Value :=
  if q = 0 then .error .moduloByZero else .ok (rational (p - q * (p / q).floor))

def mod (a b : Value) : Except Error Value :=
  match a, b with
  | rational p, rational q => modRational p q
  | rational p, b =>
    match b.number? with
    | some n => if n.isZero then .error .moduloByZero else do modRational p (← n.toRat)
    | none => .error (.cannotCombine "modulo" .rational b.kind)
  | plain c, plain d => plain <$> c.mod d
  | a, b => .error (leftError "%" a b)

def powInteger (p : Rat) (n : Int) : Except Error Value :=
  match Rational.pow? p n with
  | none => .error (.fractionOverZero 1)
  | some r => .ok (rational r)

/-- A rational to a rational power. An integral power is exact, any other goes by way of
doubles. -/
def powRational (p q : Rat) : Except Error Value :=
  if q.den = 1 then powInteger p q.num
  else do
    let x ← Rational.toDouble p
    let y ← Rational.toDouble q
    let r ← Double.power x y
    return rational (Rational.settle (← Rational.ofDouble r))

def pow (a b : Value) : Except Error Value :=
  match a, b with
  | rational p, rational q => powRational p q
  | rational p, b =>
    match b.number? with
    | some (.whole n) => powInteger p n
    | _ => .error (.cannotExponentiate b.kind)
  | plain c, plain d => plain <$> c.pow d
  | a, b => .error (leftError "** or pow()" a b)

def neg : Value → Except Error Value
  | rational q => .ok (rational (-q))
  | complex z => .ok (complex z.neg)
  | plain d => plain <$> d.neg
  | v => .error (.badNegation v.kind)

def matMul (a b : Value) : Except Error Value :=
  match a, b with
  | matrix m, matrix n =>
    match m.mul? n with
    | none => .error .productShape
    | some r => .ok (matrix r)
  | matrix _, _ => .error .productNeedsMatrix
  | a, _ => .error (.noMember a.kind "matmul")

def inverseMatrix (m : RatMatrix) : Except Error RatMatrix :=
  if m.isSquare then
    match m.inverse? with
    | none => .error .singular
    | some r => .ok r
  else .error .inverseNotSquare

def inverse : Value → Except Error Value
  | matrix m => matrix <$> inverseMatrix m
  | v => .error (.noMember v.kind "inverse")

def isVector : Value → Except Error Bool
  | matrix m => .ok m.isVector
  | v => .error (.noMember v.kind "is_vector")

/-- The product as an expression means it: matrices of one shape entry by entry, else rows and
columns if one of the matrices is a vector. -/
def star (a b : Value) : Except Error Value :=
  match a, b with
  | matrix m, matrix n =>
    if m.sameShape n then .ok (matrix (m.pointwise (· * ·) n))
    else if m.width == n.height && (m.isVector || n.isVector) then .ok (matrix (m.mul n))
    else .error .starShape
  | a, b => mul a b

/-- The remainder as an expression means it: of two rationals or of two plain numbers. -/
def remainder (a b : Value) : Except Error Value :=
  match a, b with
  | rational p, rational q => modRational p q
  | a, b =>
    match a.number?, b.number? with
    | some m, some n => do
      let r ← m.mod n
      return rational (← r.settled)
    | _, _ => .error .moduloOperands

/-- The power of a square matrix, by way of its inverse for a negative exponent. -/
def powMatrix (m : RatMatrix) (n : Int) : Except Error Value :=
  if !m.isSquare then .error .powerNotSquare
  else if 0 ≤ n then .ok (matrix (m.powNat n.toNat))
  else do
    let r ← inverseMatrix m
    return matrix (r.powNat n.natAbs)

def power (a b : Value) : Except Error Value :=
  match a, b with
  | rational p, rational q => powRational p q
  | matrix m, rational q =>
    if q.den = 1 then powMatrix m q.num else .error .exponentNotInteger
  | matrix _, _ => .error .exponentNotInteger
  | complex _, _ => .error .complexPower
  | a, b => .error (.cannotRaise a.kind b.kind)

def starStar (a b : Value) : Except Error Value :=
  match a, b with
  | matrix _, matrix _ => matMul a b
  | _, _ => .error .productNeedsMatrices

/-- What a binary sign makes of two values. The left operand decides: rationals and complex numbers
combine with each other and with plain numbers, matrices with matrices and, in products, with
numbers. -/
def combine (op : BinOp) (a b : Value) : Except Error Value :=
  match op with
  | .add => add a b
  | .sub => sub a b
  | .mul => star a b
  | .div => div a b
  | .mod => remainder a b
  | .matMul => starStar a b
  | .pow => power a b
  | .other s => if s = "MATMUL" then starStar a b else .error (.unknownOperator s)

end Reckoner.Value
