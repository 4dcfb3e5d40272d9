import Reckoner.Expr

namespace Reckoner.Expr

mutual
/-- Whether a variable occurs, spelled just so. -/
def mentions (x : String) : Expr → Bool
  | .var y => y == x
  | .unary _ e => mentions x e
  | .binary _ l r => mentions x l || mentions x r
  | .call _ e => mentions x e
  | .matrix rows => mentionsRows x rows
  | _ => false

def mentionsRow (x : String) : List Expr → Bool
  | [] => false
  | e :: es => mentions x e || mentionsRow x es

def mentionsRows (x : String) : List (List Expr) → Bool
  | [] => false
  | r :: rs => mentionsRow x r || mentionsRows x rs
end

mutual
def hasVariables : Expr → Bool
  | .var _ => true
  | .unary _ e => hasVariables e
  | .binary _ l r => hasVariables l || hasVariables r
  | .call _ e => hasVariables e
  | .matrix rows => hasVariablesRows rows
  | _ => false

def hasVariablesRow : List Expr → Bool
  | [] => false
  | e :: es => hasVariables e || hasVariablesRow es

def hasVariablesRows : List (List Expr) → Bool
  | [] => false
  | r :: rs => hasVariablesRow r || hasVariablesRows rs
end

mutual
def subst (x : String) (r : Expr) : Expr → Expr
  | .var y => if y = x then r else .var y
  | .unary op e => .unary op (subst x r e)
  | .binary op a b => .binary op (subst x r a) (subst x r b)
  | .call f e => .call f (subst x r e)
  | .matrix rows => .matrix (substRows x r rows)
  | e => e

def substRow (x : String) (r : Expr) : List Expr → List Expr
  | [] => []
  | e :: es => subst x r e :: substRow x r es

def substRows (x : String) (r : Expr) : List (List Expr) → List (List Expr)
  | [] => []
  | row :: rows => substRow x r row :: substRows x r rows
end

mutual
def bindVars (f : String → Expr) : Expr → Expr
  | .var y => f y
  | .unary op e => .unary op (bindVars f e)
  | .binary op a b => .binary op (bindVars f a) (bindVars f b)
  | .call g e => .call g (bindVars f e)
  | .matrix rows => .matrix (bindVarsRows f rows)
  | .absent => .absent
  | .number t => .number t
  | .imaginary => .imaginary
  | .other d => .other d

def bindVarsRow (f : String → Expr) : List Expr → List Expr
  | [] => []
  | e :: es => bindVars f e :: bindVarsRow f es

def bindVarsRows (f : String → Expr) : List (List Expr) → List (List Expr)
  | [] => []
  | row :: rows => bindVarsRow f row :: bindVarsRows f rows
end

/-- The first variable outside of calls and matrices. -/
def firstVariable? : Expr → Option String
  | .var x => if x = "" then none else some x
  | .unary _ e => firstVariable? e
  | .binary _ l r =>
    match firstVariable? l with
    | some x => some x
    | none => firstVariable? r
  | _ => none

end Reckoner.Expr
