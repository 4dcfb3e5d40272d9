import Reckoner.Double

namespace Reckoner.Decimal
open Double

structure Quotient where
  num : Nat
  den : Nat

def digitCount (n : Nat) : Nat :=
  (Nat.toDigits 10 n).length

def Quotient.leading (q : Quotient) : Int :=
  if q.den ≤ q.num then (digitCount (q.num / q.den) : Int) - 1
  else
    let l := digitCount (q.den / q.num)
    if q.den ≤ q.num * Nat.pow 10 (l - 1) then 1 - (l : Int) else -(l : Int)

def Quotient.scale (q : Quotient) (k : Int) : Quotient :=
  if k < 0 then ⟨q.num, q.den * Nat.pow 10 (-k).toNat⟩ else ⟨q.num * Nat.pow 10 k.toNat, q.den⟩

/-- A double in quarters of its unit, with the midpoints to its neighbours. The lower neighbour of
a power of two is half as far as the upper one. -/
structure Interval where
  low : Quotient
  mid : Quotient
  high : Quotient
  /-- Whether a midpoint itself reads back as the double. -/
  closed : Bool

def quarters (n : Nat) (e : Int) : Quotient :=
  if e - 2 < 0 then ⟨n, 1 <<< (2 - e).toNat⟩ else ⟨n <<< (e - 2).toNat, 1⟩

def Interval.of (s : Scaled) : Interval :=
  let m := 4 * s.mantissa
  let below := if s.mantissa == Nat.pow 2 52 && s.exponent != -1074 then 1 else 2
  { low := quarters (m - below) s.exponent
    mid := quarters m s.exponent
    high := quarters (m + 2) s.exponent
    closed := s.mantissa % 2 == 0 }

/-- Whether `n · 10^k` reads back, for an interval that is scaled by `10^(-k)`. -/
def Interval.holds (i : Interval) (n : Nat) : Bool :=
  if i.closed then i.low.num ≤ n * i.low.den && n * i.high.den ≤ i.high.num
  else i.low.num < n * i.low.den && n * i.high.den < i.high.num

def Interval.scale (i : Interval) (k : Int) : Interval :=
  { i with low := i.low.scale k, mid := i.mid.scale k, high := i.high.scale k }

/-- The integer that reads back and is closest to the middle, of the two around it. -/
def Interval.integer? (i : Interval) : Option Nat :=
  let n := i.mid.num / i.mid.den
  let r := 2 * (i.mid.num % i.mid.den)
  let lowFirst := r < i.mid.den || (r == i.mid.den && n % 2 == 0)
  let (a, b) := if lowFirst then (n, n + 1) else (n + 1, n)
  if i.holds a then some a else if i.holds b then some b else none

structure Digits where
  digits : List Char
  leading : Int

def dropZeros (cs : List Char) : List Char :=
  (cs.reverse.dropWhile (· == '0')).reverse

def search (i : Interval) (leading : Int) : Nat → Nat → Option (Nat × Int)
  | 0, _ => none
  | fuel + 1, count =>
    let k := leading + 1 - (count : Int)
    match (i.scale (-k)).integer? with
    | some n => some (n, k)
    | none => search i leading fuel (count + 1)

/-- The shortest digits that read back as a positive double, of the decimals with the fewest digits
the one closest to it. Seventeen digits always suffice. -/
def shortest (s : Scaled) : Digits :=
  let i := Interval.of s
  match search i i.mid.leading 17 1 with
  | some (n, k) =>
    let ds := Nat.toDigits 10 n
    ⟨dropZeros ds, k + (ds.length : Int) - 1⟩
  | none => ⟨['0'], 0⟩

end Reckoner.Decimal
