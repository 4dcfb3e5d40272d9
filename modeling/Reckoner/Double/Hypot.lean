import Reckoner.Double

namespace Reckoner.Double

def sqrtBits (n : Nat) : Nat → Nat → Nat
  | 0, r => r
  | k + 1, r =>
    let t := r + (1 <<< k)
    sqrtBits n k (if t * t ≤ n then t else r)

/-- The integer part of a square root. -/
def floorSqrt (n : Nat) : Nat :=
  sqrtBits n (n.log2 / 2 + 1) 0

def Scaled.over (s : Scaled) (e : Int) : Nat :=
  s.mantissa <<< (s.exponent - e).toNat

/-- A rational that rounds to the same double as the square root of `n`. -/
def nearSqrt (n : Nat) : Rat :=
  let k := 64
  let wide := n <<< (2 * k)
  let r := floorSqrt wide
  if r * r = wide then mkRat r (1 <<< k) else mkRat (2 * r + 1) (1 <<< (k + 1))

def hypotFinite (x y : Float) : Float :=
  let a := scaled x
  let b := scaled y
  let e := min a.exponent b.exponent
  let s := nearSqrt (a.over e * a.over e + b.over e * b.over e)
  if e < 0 then ofRat (s / mkRat (1 <<< (-e).toNat) 1) else ofRat (s * mkRat (1 <<< e.toNat) 1)

/-- The length of a vector, correctly rounded. The square root is taken with enough bits on
integers, and a last bit tells whether it was exact. -/
def hypot (x y : Float) : Float :=
  if isInfinite x || isInfinite y then infinity
  else if x.isNaN || y.isNaN then notANumber
  else hypotFinite x y

end Reckoner.Double
