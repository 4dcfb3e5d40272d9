import Reckoner.Token

namespace Reckoner

inductive SyntaxError where
  | unexpectedCharacter (c : Char) (pos : Nat)
  | endOfInput
  | expected (wanted : String) (found : TokenKind)
  | leftover (text : String) (pos : Nat)
  | reservedName
  | reservedParameter
  | consecutiveSigns
  | endOfExpression
  | unexpectedToken (found : TokenKind)
  | emptyMatrix
  deriving DecidableEq

namespace SyntaxError

def message : SyntaxError → String
  | unexpectedCharacter c pos =>
    "Unexpected character '" ++ String.singleton c ++ "' at position " ++ toString pos
  | endOfInput => "Unexpected end of input"
  | expected wanted found => "Expected " ++ wanted ++ ", got " ++ found.name
  | leftover text pos =>
    "Unexpected token after expression: '" ++ text ++ "' at position " ++ toString pos
  | reservedName =>
    "'i' is reserved for the imaginary unit and cannot be used as a variable or function name"
  | reservedParameter =>
    "'i' is reserved for the imaginary unit and cannot be used as a variable or function argument"
  | consecutiveSigns => "Consecutive '+' or '-' operators are not allowed"
  | endOfExpression => "Unexpected end of expression"
  | unexpectedToken found => "Unexpected token: " ++ found.name
  | emptyMatrix => "Empty matrix"

end SyntaxError
end Reckoner
