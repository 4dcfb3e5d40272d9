import Reckoner.Expr.Subst
import Reckoner.Scope

namespace Reckoner

namespace Inline

mutual
/-- Calls of a user's functions, written out: the argument stands in the body in the place of the
parameter, and `run` writes out what comes of that in turn. -/
def inlineWith (run : Expr → Except Error Expr) (s : Scope) : Expr → Except Error Expr
  | .call f e =>
    match s.function? f with
    | some u => run (Expr.subst u.param e u.body)
    | none => .call f <$> inlineWith run s e
  | .binary op l r => do
    let a ← inlineWith run s l
    let b ← inlineWith run s r
    return .binary op a b
  | .unary op e => .unary op <$> inlineWith run s e
  | .matrix rows => .matrix <$> inlineRows run s rows
  | e => .ok e

def inlineRow (run : Expr → Except Error Expr) (s : Scope) : List Expr → Except Error (List Expr)
  | [] => .ok []
  | e :: es => do
    let a ← inlineWith run s e
    let as ← inlineRow run s es
    return a :: as

def inlineRows (run : Expr → Except Error Expr) (s : Scope) :
    List (List Expr) → Except Error (List (List Expr))
  | [] => .ok []
  | r :: rs => do
    let a ← inlineRow run s r
    let as ← inlineRows run s rs
    return a :: as
end

def inlineDeep (s : Scope) : Nat → Expr → Except Error Expr
  | 0 => fun _ => .error .recursion
  | n + 1 => inlineWith (inlineDeep s n) s

end Inline

def Scope.inline (s : Scope) (e : Expr) : Except Error Expr :=
  Inline.inlineDeep s maxDepth e

end Reckoner
