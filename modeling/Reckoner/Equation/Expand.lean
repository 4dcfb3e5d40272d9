import Reckoner.Expr.Subst
import Reckoner.Scope

namespace Reckoner.Equation

def replace (x : String) (r : Expr) (e : Expr) : Expr :=
  e.bindVars (fun y => if y = x then r else .var y)

mutual
/-- Each outermost call is replaced by `rule`; a call that has no rule is kept, with the calls in
its argument replaced. -/
def replaceCalls (rule : String → Expr → Option (Except Error Expr)) : Expr → Except Error Expr
  | .absent => .ok .absent
  | .call f e =>
    match rule f e with
    | some r => r
    | none => .call f <$> replaceCalls rule e
  | .unary op e => .unary op <$> replaceCalls rule e
  | .binary op l r => do return .binary op (← replaceCalls rule l) (← replaceCalls rule r)
  | .matrix rows => .matrix <$> replaceCallsRows rule rows
  | .number t => .ok (.number t)
  | .var x => .ok (.var x)
  | .imaginary => .ok .imaginary
  | .other d => .ok (.other d)

def replaceCallsRow (rule : String → Expr → Option (Except Error Expr)) :
    List Expr → Except Error (List Expr)
  | [] => .ok []
  | e :: es => do return (← replaceCalls rule e) :: (← replaceCallsRow rule es)

def replaceCallsRows (rule : String → Expr → Option (Except Error Expr)) :
    List (List Expr) → Except Error (List (List Expr))
  | [] => .ok []
  | r :: rs => do return (← replaceCallsRow rule r) :: (← replaceCallsRows rule rs)
end

def expandDeep (s : Scope) : Nat → Expr → Except Error Expr
  | 0 => fun _ => .error .recursion
  | n + 1 =>
    replaceCalls (fun f e =>
      (s.function? f).map (fun u => expandDeep s n (replace u.param e u.body)))

def expand (s : Scope) (e : Expr) : Except Error Expr :=
  expandDeep s maxDepth e

end Reckoner.Equation
