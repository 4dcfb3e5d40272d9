import Reckoner.Datum

namespace Reckoner

inductive BinOp where
  | add
  | sub
  | mul
  | div
  | mod
  | matMul
  | pow
  /-- A sign that no rule of the calculator gives a meaning. -/
  | other (sign : String)
  deriving DecidableEq

namespace BinOp

def sign : BinOp → String
  | add => "+"
  | sub => "-"
  | mul => "*"
  | div => "/"
  | mod => "%"
  | matMul => "**"
  | pow => "^"
  | other s => s

def ofSign (s : String) : BinOp :=
  if s = "+" then add
  else if s = "-" then sub
  else if s = "*" then mul
  else if s = "/" then div
  else if s = "%" then mod
  else if s = "**" then matMul
  else if s = "^" then pow
  else other s

/-- How tightly a sign binds. The sign of the matrix product has no rank of its own. -/
def rank : BinOp → Nat
  | pow => 4
  | mul | div | mod => 3
  | add | sub => 2
  | matMul | other _ => 0

end BinOp

inductive UnOp where
  | neg
  | other (sign : String)
  deriving DecidableEq

namespace UnOp

def sign : UnOp → String
  | neg => "-"
  | other s => s

def ofSign (s : String) : UnOp :=
  if s = "-" then neg else other s

end UnOp

inductive Expr where
  /-- No expression at all. -/
  | absent
  | number (numeral : String)
  | var (name : String)
  | imaginary
  | unary (op : UnOp) (arg : Expr)
  | binary (op : BinOp) (left right : Expr)
  | call (name : String) (arg : Expr)
  | matrix (rows : List (List Expr))
  /-- Data in the place of an expression, which only a tree from elsewhere can have. -/
  | other (datum : Datum)

namespace Expr

instance : Inhabited Expr := ⟨absent⟩

mutual
def toDatum : Expr → Datum
  | absent => .absent
  | number s => .tuple [.text "number", .text s]
  | var s => .tuple [.text "variable", .text s]
  | imaginary => .tuple [.text "imaginary"]
  | unary op a => .tuple [.text "unary", .text op.sign, toDatum a]
  | binary op a b => .tuple [.text "binop", .text op.sign, toDatum a, toDatum b]
  | call f a => .tuple [.text "call", .text f, toDatum a]
  | matrix rows => .tuple [.text "matrix", .list (toDatumRows rows)]
  | other d => d

def toDatumRow : List Expr → List Datum
  | [] => []
  | e :: es => toDatum e :: toDatumRow es

def toDatumRows : List (List Expr) → List Datum
  | [] => []
  | r :: rs => .list (toDatumRow r) :: toDatumRows rs
end

mutual
def ofDatum : Datum → Expr
  | .absent => absent
  | .tuple [.text "imaginary"] => imaginary
  | .tuple [.text "number", .text s] => number s
  | .tuple [.text "variable", .text s] => var s
  | .tuple [.text "unary", .text op, a] => unary (UnOp.ofSign op) (ofDatum a)
  | .tuple [.text "binop", .text op, a, b] => binary (BinOp.ofSign op) (ofDatum a) (ofDatum b)
  | .tuple [.text "call", .text f, a] => call f (ofDatum a)
  | .tuple [.text "matrix", .list rows] =>
    match ofDatumRows rows with
    | some rows => matrix rows
    | none => other (.tuple [.text "matrix", .list rows])
  | d => other d

def ofDatumRow : List Datum → List Expr
  | [] => []
  | d :: ds => ofDatum d :: ofDatumRow ds

def ofDatumRows : List Datum → Option (List (List Expr))
  | [] => some []
  | .list items :: ds =>
    match ofDatumRows ds with
    | some rows => some (ofDatumRow items :: rows)
    | none => none
  | _ => none
end

end Expr

inductive Statement where
  | expression (e : Expr)
  | assign (name : String) (value : Expr)
  | define (name param : String) (body : Expr)
  /-- Two sides to be made equal, or one side to be worked out. -/
  | equation (left : Expr) (right : Option Expr)

namespace Statement

def toExpr : Statement → Expr
  | expression e => e
  | assign x e => .other (.tuple [.text "assign", .text x, e.toDatum])
  | define f x e => .other (.tuple [.text "fun_assign", .text f, .text x, e.toDatum])
  | equation l r =>
    .other (.tuple [.text "equation", l.toDatum, (r.map Expr.toDatum).getD .absent])

end Statement
end Reckoner
