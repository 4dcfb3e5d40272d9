import Reckoner.Eval
import Reckoner.Expr.Parser

namespace Reckoner.Value

/-- A value as a rational with a small denominator. A rational is taken as it is. -/
def toRational : Value → Except Error Rat
  | rational q => .ok q
  | plain (.text s) => Rational.read s
  | v =>
    match v.number? with
    | some n => n.settled
    | none => .error .notRationalSource

def ofParts (re im : Value) : Except Error Value := do
  return complex ⟨← re.toRational, ← im.toRational⟩

def checkShape (rows : List (List Value)) : Except Error Unit :=
  match rows with
  | [] => .error .emptyMatrix
  | r :: _ =>
    if r.isEmpty then .error .emptyMatrix
    else if rows.any (fun s => s.length != r.length) then .error .raggedMatrix
    else .ok ()

def ofRows (rows : List (List Value)) : Except Error Value := do
  checkShape rows
  Eval.ofRows (← rows.mapM (fun r => r.mapM toRational))

def ofBody (param text : String) (name : Option String) : Except Error Value := do
  let body ← (Parser.read text).mapError .form
  return function ⟨param, (body.map Statement.toExpr).getD .absent, name⟩

end Reckoner.Value
