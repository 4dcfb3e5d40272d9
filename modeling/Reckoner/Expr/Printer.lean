import Reckoner.Expr

namespace Reckoner.Expr

def inParens (s : String) : String :=
  "(" ++ s ++ ")"

/-- An operand that is a sum, product or power itself is put in parentheses if its sign binds less
tightly, and always beside a power. -/
def operand (op : BinOp) (e : Expr) (text : String) : String :=
  match e with
  | .binary inner _ _ =>
    if inner.rank < op.rank ∨ op = .pow then inParens text else text
  | _ => text

def joined (op : BinOp) (l r : Expr) (left right : String) : String :=
  let sign := if op = .pow then "^" else " " ++ op.sign ++ " "
  operand op l left ++ sign ++ operand op r right

def rowText (elements : List String) : String :=
  "[ " ++ String.intercalate " , " elements ++ " ]"

def rowsText (rows : List String) : String :=
  "[ " ++ String.intercalate " ; " rows ++ " ]"

mutual
def text : Expr → String
  | .absent => ""
  | .number s => s
  | .var x => x
  | .imaginary => "i"
  | .unary op e =>
    match e with
    | .binary .. => op.sign ++ inParens (text e)
    | _ => op.sign ++ text e
  | .binary op l r => joined op l r (text l) (text r)
  | .call f e => (toDatum (.call f e)).notated
  | .matrix rows => rowsText (rowTexts rows)
  | .other d => d.shown

def elementTexts : List Expr → List String
  | [] => []
  | e :: es => text e :: elementTexts es

def rowTexts : List (List Expr) → List String
  | [] => []
  | r :: rs => rowText (elementTexts r) :: rowTexts rs
end

end Reckoner.Expr
