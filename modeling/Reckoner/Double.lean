import Reckoner.Numeral

namespace Reckoner.Double

/-- A quotient of naturals rounded to the nearest natural, a tie to the even one. -/
def roundDiv (n d : Nat) : Nat :=
  let q := n / d
  let r := 2 * (n % d)
  if r < d || (r == d && q % 2 == 0) then q else q + 1

/-- The quotient `n / d` as multiples of `2^e`, rounded to the nearest, a tie to the even one. All
is computed on integers, so nothing depends on how the machine calculates. -/
def roundAt (n d : Nat) (e : Int) : Nat :=
  if e < 0 then roundDiv (n <<< (-e).toNat) d else roundDiv n (d <<< e.toNat)

/-- The exponent of the grid of doubles around the positive quotient `n / d`: 53 bits stand above
it, or it is the finest grid there is. -/
def gridExponent (n d : Nat) : Int :=
  let e : Int := (n.log2 : Int) - (d.log2 : Int) - 53
  let wide := if e < 0 then (n <<< (-e).toNat) / d else n / (d <<< e.toNat)
  max (if Nat.pow 2 53 ≤ wide then e + 1 else e) (-1074)

structure Scaled where
  mantissa : Nat
  exponent : Int

/-- The double nearest to a quotient of naturals, as if there were no largest one. -/
def nearest (n d : Nat) : Scaled :=
  if n == 0 then ⟨0, -1074⟩
  else
    let e := gridExponent n d
    ⟨roundAt n d e, e⟩

def Scaled.value (s : Scaled) : Rat :=
  if s.exponent < 0 then mkRat s.mantissa (1 <<< (-s.exponent).toNat)
  else ((s.mantissa <<< s.exponent.toNat : Nat) : Int)

def Scaled.tooLarge (s : Scaled) : Bool :=
  971 < s.exponent || (s.exponent == 971 && Nat.pow 2 53 ≤ s.mantissa)

/-- The rational value of the double nearest to `q`, if there is a finite one. -/
def round? (q : Rat) : Option Rat :=
  let s := nearest q.num.natAbs q.den
  if s.tooLarge then none
  else some (if q.num < 0 then -s.value else s.value)

def infinity : Float := Float.ofBits 0x7FF0000000000000

def notANumber : Float := Float.ofBits 0x7FF8000000000000

def Scaled.toFloat (s : Scaled) : Float :=
  if s.tooLarge then infinity
  else Float.ofBits (((s.exponent + 1074).toNat <<< 52) + s.mantissa).toUInt64

/-- The double nearest to `q`, infinite if `q` is too large. -/
def ofRat (q : Rat) : Float :=
  let x := (nearest q.num.natAbs q.den).toFloat
  if q.num < 0 then -x else x

def ofRat? (q : Rat) : Option Float :=
  if (nearest q.num.natAbs q.den).tooLarge then none else some (ofRat q)

def isInfinite (x : Float) : Bool :=
  x == infinity || x == -infinity

def isFinite (x : Float) : Bool :=
  !x.isNaN && !isInfinite x

def isNegative (x : Float) : Bool :=
  x.toBits.toNat ≥ Nat.pow 2 63

def scaled (x : Float) : Scaled :=
  let bits := x.toBits.toNat % Nat.pow 2 63
  let e := bits / Nat.pow 2 52
  let f := bits % Nat.pow 2 52
  if e == 0 then ⟨f, -1074⟩ else ⟨f + Nat.pow 2 52, (e : Int) - 1075⟩

def value (x : Float) : Rat :=
  if isNegative x then -(scaled x).value else (scaled x).value

/-- The double that a decimal numeral names. Exponents far outside the range of doubles are not
computed with. -/
def ofDecimal (negative : Bool) (mantissa : Nat) (exponent : Int) : Float :=
  let bits : Int := mantissa.log2
  let x :=
    if mantissa == 0 || exponent + bits / 3 < -400 then 0.0
    else if 400 < exponent + bits * 3 / 10 then infinity
    else if exponent < 0 then (nearest mantissa (Nat.pow 10 (-exponent).toNat)).toFloat
    else (nearest (mantissa * Nat.pow 10 exponent.toNat) 1).toFloat
  if negative then -x else x

def ofText : Numeral.DecimalText → Float
  | .finite negative mantissa exponent => ofDecimal negative mantissa exponent
  | .infinite negative => if negative then -infinity else infinity
  | .notANumber => notANumber

def read? (s : String) : Option Float :=
  (Numeral.decimal? s).map ofText

end Reckoner.Double
