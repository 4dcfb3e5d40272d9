import Reckoner.Double.Hypot
import Reckoner.Error

namespace Reckoner.Double

/-- Complex numbers with double parts. Of those that are not finite only real ones occur. -/
structure Complex where
  re : Float
  im : Float

namespace Complex

def ofReal (x : Float) : Complex :=
  ⟨x, 0.0⟩

def pi : Float := 3.141592653589793

def e : Float := 2.718281828459045

def ln2 : Float := 0.6931471805599453

def largeDouble : Float := Float.ofBits 0x7FCFFFFFFFFFFFFF

/-- The logarithm of a quarter of the largest double. Beyond it exponentials are computed in two
steps. -/
def logLarge : Float := 708.3964185322641

def smallestNormal : Float := Float.ofBits 0x0010000000000000

def copySign (x y : Float) : Float :=
  if isNegative y then -x.abs else x.abs

def isFinite (z : Complex) : Bool :=
  Double.isFinite z.re && Double.isFinite z.im

def inRange (z : Complex) : Except Error Complex :=
  if isInfinite z.re || isInfinite z.im then .error .rangeError else .ok z

def sinhFinite (z : Complex) : Except Error Complex :=
  if logLarge < z.re.abs then
    let x := z.re - copySign 1.0 z.re
    inRange ⟨Float.cos z.im * Float.sinh x * e, Float.sin z.im * Float.cosh x * e⟩
  else inRange ⟨Float.cos z.im * Float.sinh z.re, Float.sin z.im * Float.cosh z.re⟩

def coshFinite (z : Complex) : Except Error Complex :=
  if logLarge < z.re.abs then
    let x := z.re - copySign 1.0 z.re
    inRange ⟨Float.cos z.im * Float.cosh x * e, Float.sin z.im * Float.sinh x * e⟩
  else inRange ⟨Float.cos z.im * Float.cosh z.re, Float.sin z.im * Float.sinh z.re⟩

def tanhFinite (z : Complex) : Complex :=
  if logLarge < z.re.abs then
    ⟨copySign 1.0 z.re, 4.0 * Float.sin z.im * Float.cos z.im * Float.exp (-2.0 * z.re.abs)⟩
  else
    let tx := Float.tanh z.re
    let ty := Float.tan z.im
    let cx := 1.0 / Float.cosh z.re
    let txty := tx * ty
    let d := 1.0 + txty * txty
    ⟨tx * (1.0 + ty * ty) / d, ((ty / d) * cx) * cx⟩

def turned (z : Complex) : Complex :=
  ⟨-z.im, z.re⟩

def turnedBack (z : Complex) : Complex :=
  ⟨z.im, -z.re⟩

/-- What a trigonometric function makes of a real number that is not finite. -/
def notFinite (z : Complex) : Except Error Complex :=
  if z.re.isNaN then .ok z else .error .domainError

def sin (z : Complex) : Except Error Complex :=
  if isFinite z then turnedBack <$> sinhFinite z.turned else notFinite z

def cos (z : Complex) : Except Error Complex :=
  if isFinite z then coshFinite z.turned else notFinite z

def tan (z : Complex) : Except Error Complex :=
  if isFinite z then .ok (tanhFinite z.turned).turnedBack else notFinite z

def exp (z : Complex) : Except Error Complex :=
  if !isFinite z then .ok ⟨Float.exp z.re, 0.0⟩
  else if logLarge < z.re then
    let l := Float.exp (z.re - 1.0)
    inRange ⟨l * Float.cos z.im * e, l * Float.sin z.im * e⟩
  else
    let l := Float.exp z.re
    inRange ⟨l * Float.cos z.im, l * Float.sin z.im⟩

def logOnePlus (x : Float) : Float :=
  let u := 1.0 + x
  if u == 1.0 then x else Float.log u * x / (u - 1.0)

/-- The logarithm of the absolute value. Near one it is computed from the distance to one. -/
def logAbs (ax ay : Float) : Float :=
  if largeDouble < ax || largeDouble < ay then
    Float.log (hypot (ax / 2.0) (ay / 2.0)) + ln2
  else if ax < smallestNormal && ay < smallestNormal then
    let scale := 9007199254740992.0
    Float.log (hypot (ax * scale) (ay * scale)) - 53.0 * ln2
  else
    let h := hypot ax ay
    if 0.71 ≤ h && h ≤ 1.73 then
      let am := if ay < ax then ax else ay
      let an := if ay < ax then ay else ax
      logOnePlus ((am - 1.0) * (am + 1.0) + an * an) / 2.0
    else Float.log h

def log (z : Complex) : Except Error Complex :=
  if z.re == 0.0 && z.im == 0.0 then .error .domainError
  else .ok ⟨logAbs z.re.abs z.im.abs, Float.atan2 z.im z.re⟩

def sqrt (z : Complex) : Complex :=
  if z.re == 0.0 && z.im == 0.0 then ⟨0.0, z.im⟩
  else if !isFinite z then
    if z.re.isNaN then z
    else if isNegative z.re then ⟨0.0, copySign infinity z.im⟩
    else ⟨infinity, z.im⟩
  else
    let ax := z.re.abs / 8.0
    let ay := z.im.abs
    let s := 2.0 * Float.sqrt (ax + hypot ax (ay / 8.0))
    let d := ay / (2.0 * s)
    if 0.0 ≤ z.re then ⟨s, copySign d z.im⟩ else ⟨d, copySign s z.im⟩

def abs (z : Complex) : Except Error Float :=
  let h := hypot z.re z.im
  if isFinite z && isInfinite h then .error .magnitudeTooLarge else .ok h

end Complex
end Reckoner.Double
