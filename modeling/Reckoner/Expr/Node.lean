import Reckoner.Error
import Reckoner.Expr

namespace Reckoner
namespace Datum

def nodeError : Datum → Error
  | .tuple [] => .tupleIndex
  | .list [] => .listIndex
  | .tuple (d :: _) | .list (d :: _) => .unknownNode d.shown
  | .text s =>
    match s.toList with
    | [] => .textIndex
    | c :: _ => .unknownNode (String.singleton c)
  | .dict _ => .missingKey
  | d => .notSubscriptable d.kind

/-- What is wrong with data that cannot be asked for their kind. -/
def flaw? (d : Datum) : Option Error :=
  match d.nodeError with
  | .unknownNode _ => none
  | err => some err

end Datum

namespace Expr

mutual
def flaw? : Expr → Option Error
  | .unary _ e => flaw? e
  | .binary _ l r => (flaw? l).or (flaw? r)
  | .call _ e => flaw? e
  | .matrix rows => flawRows? rows
  | .other d => d.flaw?
  | _ => none

def flawRow? : List Expr → Option Error
  | [] => none
  | e :: es => (flaw? e).or (flawRow? es)

def flawRows? : List (List Expr) → Option Error
  | [] => none
  | r :: rs => (flawRow? r).or (flawRows? rs)
end

/-- An expression each part of which can be asked for its kind. Equations take any data as they
are, but nothing else looks into an expression before it has passed. -/
def checked (e : Expr) : Except Error Expr :=
  match e.flaw? with
  | some err => .error err
  | none => .ok e

end Expr
end Reckoner
