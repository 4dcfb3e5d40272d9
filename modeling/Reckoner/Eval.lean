import Reckoner.Builtin.Apply
import Reckoner.Expr.Node
import Reckoner.Scope

namespace Reckoner

namespace Eval

def element (v : Value) : Except Error Rat :=
  match v with
  | .rational q => .ok q
  | v =>
    match v.number? with
    | some n => n.settled
    | none => .error (.matrixElement v.kind)

def ofRows (rows : List (List Rat)) : Except Error Value :=
  match RatMatrix.ofRows rows with
  | .ok m => .ok (.matrix m)
  | .error .empty => .error .emptyMatrix
  | .error .ragged => .error .raggedMatrix

def negate (op : UnOp) (v : Value) : Except Error Value :=
  match op with
  | .neg => v.neg
  | .other s => .error (.unknownUnary s)

/-- The body of a function is evaluated in the scope of its caller, with the parameter bound to the
argument. -/
def applyNamed (run : Scope → Expr → Except Error Value) (s : Scope) (name : String) (v : Value) :
    Except Error Value :=
  match s.lookup? name with
  | none => .error (.undefinedFunction name)
  | some (.function f) => run (s.enter f.param v) f.body
  | some (.builtin b home) => b.apply (s.modeOf home) v
  | some _ => .error (.notCallable name)

mutual
/-- The value of an expression, with `run` for the bodies of functions. -/
def evalWith (run : Scope → Expr → Except Error Value) (s : Scope) : Expr → Except Error Value
  | .absent => .ok (.plain .absent)
  | .number t => .rational <$> Rational.readNumeral t
  | .var x =>
    match s.lookup? x with
    | none => .error (.undefinedVariable x)
    | some v => .ok v
  | .imaginary => .ok (.complex ⟨0, 1⟩)
  | .unary op e => do negate op (← evalWith run s e)
  | .binary op l r => do
    let a ← evalWith run s l
    let b ← evalWith run s r
    Value.combine op a b
  | .call f e => do applyNamed run s f (← evalWith run s e)
  | .matrix rows => do ofRows (← evalRows run s rows)
  | .other d => .error d.nodeError

def evalRow (run : Scope → Expr → Except Error Value) (s : Scope) :
    List Expr → Except Error (List Value)
  | [] => .ok []
  | e :: es => do
    let v ← evalWith run s e
    let vs ← evalRow run s es
    return v :: vs

/-- The rows of a matrix. A row is evaluated whole before its elements are looked at. -/
def evalRows (run : Scope → Expr → Except Error Value) (s : Scope) :
    List (List Expr) → Except Error (List (List Rat))
  | [] => .ok []
  | r :: rs => do
    let vs ← evalRow run s r
    let qs ← vs.mapM element
    let rows ← evalRows run s rs
    return qs :: rows
end

def evalDeep : Nat → Scope → Expr → Except Error Value
  | 0 => fun _ _ => .error .recursion
  | n + 1 => evalWith (evalDeep n)

end Eval

def Scope.eval (s : Scope) (e : Expr) : Except Error Value :=
  Eval.evalDeep maxDepth s e

end Reckoner
