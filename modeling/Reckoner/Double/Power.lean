import Reckoner.Error
import Reckoner.Double

namespace Reckoner.Double

def isIntegral (x : Float) : Bool :=
  (value x).den == 1

def isOdd (x : Float) : Bool :=
  isFinite x && isIntegral x && (value x).num % 2 != 0

def rawPower (negate : Bool) (base exponent : Float) : Except Error Float :=
  let y := Float.pow base exponent
  if isInfinite y then .error .powerTooLarge else .ok (if negate then -y else y)

/-- Powers to an exponent that is not zero, of finite numbers. A result that is not real is an
error, even if only its size is in question. -/
def finitePower (base exponent : Float) : Except Error Float :=
  if base == 0.0 then
    if exponent < 0.0 then .error .zeroToNegative
    else .ok (if isOdd exponent then base else 0.0)
  else if base < 0.0 then
    if !isIntegral exponent then
      if isInfinite (Float.pow (-base) exponent) then .error .complexPowerTooLarge
      else .error .notRationalSource
    else if base == -1.0 then .ok (if isOdd exponent then -1.0 else 1.0)
    else rawPower (isOdd exponent) (-base) exponent
  else if base == 1.0 then .ok 1.0
  else rawPower false base exponent

def power (base exponent : Float) : Except Error Float :=
  if exponent == 0.0 then .ok 1.0
  else if base.isNaN then .ok base
  else if exponent.isNaN then .ok (if base == 1.0 then 1.0 else exponent)
  else if isInfinite exponent then
    let size := base.abs
    .ok (if size == 1.0 then 1.0
      else if (0.0 < exponent) == (1.0 < size) then infinity
      else 0.0)
  else if isInfinite base then
    .ok (if 0.0 < exponent then if isOdd exponent then base else infinity
      else if isOdd exponent && isNegative base then -0.0
      else 0.0)
  else finitePower base exponent

end Reckoner.Double
