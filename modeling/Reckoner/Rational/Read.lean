import Reckoner.Double
import Reckoner.Error
import Reckoner.Rational.Approximate

namespace Reckoner.Rational
open Numeral

def readDigits (ds : List Nat) : Except Error Nat :=
  if 4300 < ds.length then .error (.readTooLong ds.length) else .ok (digitsValue ds)

def signed (negative : Bool) (n : Nat) : Int :=
  if negative then -(n : Int) else n

def readInteger (s : String) : Except Error Int :=
  match integer? s with
  | none => .error (.badInteger s)
  | some t =>
    match readDigits t.digits with
    | .error e => .error e
    | .ok n => .ok (signed t.negative n)

def fraction (n d : Int) : Except Error Rat :=
  if d = 0 then .error (.fractionOverZero n) else .ok ((n : Rat) / (d : Rat))

def ofDecimalParts (negative : Bool) (whole places : Nat) (length : Nat) (exponent : Int) : Rat :=
  let n := signed negative (whole * Nat.pow 10 length + places)
  if 0 ≤ exponent then mkRat (n * Nat.pow 10 exponent.toNat) (Nat.pow 10 length)
  else mkRat n (Nat.pow 10 length * Nat.pow 10 exponent.natAbs)

def readExact (s : String) : Except Error Rat := do
  match fraction? s with
  | none => .error (.badFraction s)
  | some t =>
    let whole ← readDigits t.whole
    match t.tail with
    | .over ds =>
      let d ← readDigits ds
      fraction (signed t.negative whole) d
    | .decimal places exponent =>
      let p ← readDigits places
      match exponent with
      | none => return ofDecimalParts t.negative whole p places.length 0
      | some e =>
        let k ← readDigits e.digits
        return ofDecimalParts t.negative whole p places.length (signed e.negative k)

def read (s : String) : Except Error Rat :=
  settle <$> readExact s

def ofDouble (x : Float) : Except Error Rat :=
  if x.isNaN then .error .notANumberRatio
  else if Double.isInfinite x then .error .infiniteRatio
  else .ok (Double.value x)

def toDouble (q : Rat) : Except Error Float :=
  match Double.ofRat? q with
  | none => .error .quotientTooLarge
  | some x => .ok x

def readByDouble (s : String) : Except Error Rat :=
  match Double.read? s with
  | none => .error (.badDecimal s)
  | some x => settle <$> ofDouble x

/-- The value of a numeral in an expression: an integer, or a decimal if there is a point. -/
def readNumeral (s : String) : Except Error Rat :=
  if s.toList.contains '.' then readByDouble s
  else (fun (n : Int) => (n : Rat)) <$> readInteger s

end Reckoner.Rational
