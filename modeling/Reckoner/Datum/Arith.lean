import Reckoner.Datum
import Reckoner.Double.Power
import Reckoner.Rational.Read

namespace Reckoner

inductive PlainNumber where
  | whole (n : Int)
  | real (x : Float)

namespace PlainNumber

def toDatum : PlainNumber → Datum
  | whole n => .int n
  | real x => .float x

def toDouble : PlainNumber → Except Error Float
  | whole n =>
    match Double.ofRat? n with
    | none => .error .integerTooLarge
    | some x => .ok x
  | real x => .ok x

def toRat : PlainNumber → Except Error Rat
  | whole n => .ok n
  | real x => Rational.ofDouble x

def settled (a : PlainNumber) : Except Error Rat :=
  Rational.settle <$> a.toRat

def isZero : PlainNumber → Bool
  | whole n => n == 0
  | real x => x == 0.0

/-- An integer becomes a double beside a double. -/
def lift (onWhole : Int → Int → Int) (onReal : Float → Float → Float) :
    PlainNumber → PlainNumber → Except Error PlainNumber
  | whole m, whole n => .ok (whole (onWhole m n))
  | a, b => do
    let x ← a.toDouble
    let y ← b.toDouble
    return real (onReal x y)

def add : PlainNumber → PlainNumber → Except Error PlainNumber :=
  lift (· + ·) (· + ·)

def sub : PlainNumber → PlainNumber → Except Error PlainNumber :=
  lift (· - ·) (· - ·)

def mul : PlainNumber → PlainNumber → Except Error PlainNumber :=
  lift (· * ·) (· * ·)

def neg : PlainNumber → PlainNumber
  | whole n => whole (-n)
  | real x => real (-x)

/-- The quotient, always a double. -/
def div : PlainNumber → PlainNumber → Except Error PlainNumber
  | whole m, whole n =>
    if n = 0 then .error .plainDivisionByZero
    else if m = 0 then .ok (real (if n < 0 then -0.0 else 0.0))
    else
      match Double.ofRat? ((m : Rat) / (n : Rat)) with
      | none => .error .quotientTooLarge
      | some x => .ok (real x)
  | a, b => do
    let x ← a.toDouble
    let y ← b.toDouble
    if y == 0.0 then .error .floatDivisionByZero else return real (x / y)

/-- The remainder of doubles, with the sign of the divisor. -/
def doubleMod (x y : Float) : Float :=
  if x.isNaN || y.isNaN || Double.isInfinite x then Double.notANumber
  else if Double.isInfinite y then
    if x == 0.0 then (if Double.isNegative y then -0.0 else 0.0)
    else if Double.isNegative x == Double.isNegative y then x
    else y
  else
    let p := Double.value x
    let q := Double.value y
    let t := p / q
    let r := Double.ofRat (p - q * (Int.tdiv t.num t.den : Int))
    if r == 0.0 then (if Double.isNegative y then -0.0 else 0.0)
    else if Double.isNegative r == Double.isNegative y then r
    else r + y

def mod : PlainNumber → PlainNumber → Except Error PlainNumber
  | whole m, whole n => if n = 0 then .error .plainModuloByZero else .ok (whole (Int.fmod m n))
  | a, b => do
    let x ← a.toDouble
    let y ← b.toDouble
    if y == 0.0 then .error .floatModuloByZero else return real (doubleMod x y)

def pow : PlainNumber → PlainNumber → Except Error PlainNumber
  | whole m, whole n =>
    if 0 ≤ n then .ok (whole (Int.pow m n.toNat))
    else do
      let x ← (whole m).toDouble
      let y ← (whole n).toDouble
      real <$> Double.power x y
  | a, b => do
    let x ← a.toDouble
    let y ← b.toDouble
    real <$> Double.power x y

def same (a b : PlainNumber) : Bool :=
  match a, b with
  | whole m, whole n => m == n
  | real x, real y => x == y
  | whole n, real x | real x, whole n => Double.isFinite x && Double.value x == (n : Rat)

end PlainNumber

namespace Datum

/-- Truth values count as zero and one. -/
def number? : Datum → Option PlainNumber
  | bool b => some (.whole (if b then 1 else 0))
  | int n => some (.whole n)
  | float x => some (.real x)
  | _ => none

def valueKind (d : Datum) : ValueKind :=
  .plain d.kind

def sumError (left : Datum) (right : ValueKind) : Error :=
  match left with
  | text _ | list _ | tuple _ => .cannotConcatenate left.valueKind right
  | _ => .unsupported "+" left.valueKind right

def productError (left : Datum) (right : ValueKind) : Error :=
  match left with
  | text _ | list _ | tuple _ => .cannotRepeat right
  | _ => .unsupported "*" left.valueKind right

def remainderError (left : Datum) (right : ValueKind) : Error :=
  match left with
  | text _ => .unusedArguments
  | _ => .unsupported "%" left.valueKind right

def onNumbers (op : PlainNumber → PlainNumber → Except Error PlainNumber) (wrong : Error)
    (a b : Datum) : Except Error Datum :=
  match a.number?, b.number? with
  | some x, some y => PlainNumber.toDatum <$> op x y
  | _, _ => .error wrong

def add (a b : Datum) : Except Error Datum :=
  match a, b with
  | text s, text t => .ok (text (s ++ t))
  | list xs, list ys => .ok (list (xs ++ ys))
  | tuple xs, tuple ys => .ok (tuple (xs ++ ys))
  | a, b => onNumbers PlainNumber.add (a.sumError b.valueKind) a b

def sub (a b : Datum) : Except Error Datum :=
  onNumbers PlainNumber.sub (.unsupported "-" a.valueKind b.valueKind) a b

def repeated (d : Datum) (n : Int) : Except Error Datum :=
  if Int.pow 2 63 ≤ n then .error .countTooLarge
  else
    match d with
    | text s => .ok (text (String.join (List.replicate n.toNat s)))
    | list xs => .ok (list (List.replicate n.toNat xs).flatten)
    | tuple xs => .ok (tuple (List.replicate n.toNat xs).flatten)
    | d => .ok d

def isSequence : Datum → Bool
  | text _ | list _ | tuple _ => true
  | _ => false

def mul (a b : Datum) : Except Error Datum :=
  match a.number?, b.number? with
  | some x, some y => PlainNumber.toDatum <$> x.mul y
  | some (.whole n), none =>
    if b.isSequence then b.repeated n else .error (a.productError b.valueKind)
  | none, some (.whole n) =>
    if a.isSequence then a.repeated n else .error (a.productError b.valueKind)
  | _, _ =>
    if !a.isSequence && b.isSequence then .error (.cannotRepeat a.valueKind)
    else .error (a.productError b.valueKind)

def div (a b : Datum) : Except Error Datum :=
  onNumbers PlainNumber.div (.unsupported "/" a.valueKind b.valueKind) a b

/-- The remainder of numbers. A text with a list leaves the text as it is. -/
def mod (a b : Datum) : Except Error Datum :=
  match a, b with
  | text s, list _ | text s, dict _ => .ok (text s)
  | a, b => onNumbers PlainNumber.mod (a.remainderError b.valueKind) a b

def pow (a b : Datum) : Except Error Datum :=
  onNumbers PlainNumber.pow (.unsupported "** or pow()" a.valueKind b.valueKind) a b

def neg (a : Datum) : Except Error Datum :=
  match a.number? with
  | some x => .ok x.neg.toDatum
  | none => .error (.badNegation a.valueKind)

mutual
/-- Equality, where numbers of different kinds can be equal. -/
def same : Datum → Datum → Bool
  | absent, absent => true
  | text s, text t => s == t
  | tuple xs, tuple ys => sameItems xs ys
  | list xs, list ys => sameItems xs ys
  | a, b =>
    match a.number?, b.number? with
    | some x, some y => x.same y
    | _, _ => false

def sameItems : List Datum → List Datum → Bool
  | [], [] => true
  | x :: xs, y :: ys => same x y && sameItems xs ys
  | _, _ => false
end

end Datum
end Reckoner
