namespace Reckoner

inductive ValueKind where
  | rational
  | complex
  | matrix
  | function
  | builtin
  /-- Plain data, with the name of its kind. -/
  | plain (name : String)
  deriving DecidableEq

namespace ValueKind

def name : ValueKind → String
  | rational => "Rational"
  | complex => "Complex"
  | matrix => "Matrix"
  | function => "Function"
  | builtin => "method"
  | plain s => s

def fullName : ValueKind → String
  | rational => "types_system.Rational"
  | complex => "types_system.Complex"
  | matrix => "types_system.Matrix"
  | function => "types_system.Function"
  | builtin => "method"
  | plain s => s

def text (k : ValueKind) : String :=
  "<class '" ++ k.fullName ++ "'>"

end ValueKind
end Reckoner
