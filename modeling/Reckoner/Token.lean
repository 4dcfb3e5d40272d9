namespace Reckoner

inductive TokenKind where
  | number
  | identifier
  | assign
  | modulo
  | question
  | plus
  | minus
  | matMul
  | multiply
  | divide
  | power
  | lparen
  | rparen
  | lbracket
  | rbracket
  | semicolon
  | comma
  deriving DecidableEq

namespace TokenKind

def name : TokenKind → String
  | number => "NUMBER"
  | identifier => "IDENTIFIER"
  | assign => "ASSIGN"
  | modulo => "MODULO"
  | question => "QUESTION"
  | plus => "PLUS"
  | minus => "MINUS"
  | matMul => "MATMUL"
  | multiply => "MULTIPLY"
  | divide => "DIVIDE"
  | power => "POWER"
  | lparen => "LPAREN"
  | rparen => "RPAREN"
  | lbracket => "LBRACKET"
  | rbracket => "RBRACKET"
  | semicolon => "SEMICOLON"
  | comma => "COMMA"

end TokenKind

/-- A token with the place of its first character in the line. -/
structure Token where
  kind : TokenKind
  text : String
  pos : Nat
  deriving DecidableEq

namespace Token

def shown (t : Token) : String :=
  "Token(" ++ t.kind.name ++ ", " ++ t.text ++ ")"

def shownAll (ts : List Token) : String :=
  "[" ++ String.intercalate ", " (ts.map shown) ++ "]"

end Token
end Reckoner
