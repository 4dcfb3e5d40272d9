namespace Reckoner

inductive Builtin where
  | sin
  | cos
  | tan
  | exp
  | log
  | sqrt
  | norm
  | inv
  | abs
  | floor
  | ceil
  deriving DecidableEq

namespace Builtin

def name : Builtin → String
  | sin => "sin"
  | cos => "cos"
  | tan => "tan"
  | exp => "exp"
  | log => "log"
  | sqrt => "sqrt"
  | norm => "norm"
  | inv => "inv"
  | abs => "abs"
  | floor => "floor"
  | ceil => "ceil"

def all : List Builtin :=
  [sin, cos, tan, exp, log, sqrt, norm, inv, abs, floor, ceil]

def ofName? (s : String) : Option Builtin :=
  all.find? (fun b => b.name == s)

end Builtin

/-- The unit of real arguments of sine, cosine and tangent. -/
inductive AngleMode where
  | radians
  | degrees
  deriving DecidableEq

namespace AngleMode

def name : AngleMode → String
  | radians => "radians"
  | degrees => "degrees"

def ofName? (s : String) : Option AngleMode :=
  if s = "rad" ∨ s = "radians" then some radians
  else if s = "deg" ∨ s = "degree" ∨ s = "degrees" then some degrees
  else none

end AngleMode
end Reckoner
