import Reckoner.Rational.Text
import Reckoner.Scope
import Reckoner.Sorted

namespace Reckoner

/-- A polynomial in one variable, as an expression gives it: each power occurs once. A coefficient
may be zero and a power may be negative. -/
structure Polynomial where
  terms : List (Int × Rat)

namespace Polynomial

def bump (k : Int) (c : Rat) : List (Int × Rat) → List (Int × Rat)
  | [] => [(k, c)]
  | (j, d) :: ts => if j = k then (j, d + c) :: ts else (j, d) :: bump k c ts

def constant (c : Rat) : Polynomial :=
  ⟨[(0, c)]⟩

def monomial (k : Int) : Polynomial :=
  ⟨[(k, 1)]⟩

/-- The polynomial of some terms. Of two terms of one power the last counts. -/
def ofList (terms : List (Int × Rat)) : Polynomial :=
  ⟨terms.foldl (fun ts t => ts.filter (fun s => s.1 != t.1) ++ [t]) []⟩

def add (p q : Polynomial) : Polynomial :=
  ⟨q.terms.foldl (fun ts t => bump t.1 t.2 ts) p.terms⟩

def neg (p : Polynomial) : Polynomial :=
  ⟨p.terms.map (fun t => (t.1, -t.2))⟩

def sub (p q : Polynomial) : Polynomial :=
  p.add q.neg

def mul (p q : Polynomial) : Polynomial :=
  ⟨p.terms.foldl (fun ts s => q.terms.foldl (fun ts t => bump (s.1 + t.1) (s.2 * t.2) ts) ts) []⟩

def coeff (p : Polynomial) (k : Int) : Rat :=
  (p.terms.lookup k).getD 0

/-- The highest power, of a coefficient that may be zero. -/
def degree (p : Polynomial) : Int :=
  match p.terms with
  | [] => 0
  | t :: ts => ts.foldl (fun d s => max d s.1) t.1

def isVariable (p : Polynomial) : Bool :=
  p.terms == [(1, 1)]

def constant? (p : Polynomial) : Option Rat :=
  match p.terms with
  | [(0, c)] => some c
  | _ => none

/-- A polynomial to a power: only the variable by itself has one. The exponent is cut to an
integer. -/
def power (p q : Polynomial) : Except Error Polynomial :=
  match q.constant? with
  | some c =>
    if p.isVariable then .ok (monomial (Int.tdiv c.num c.den)) else .error .notSimplePolynomial
  | none => .error .notSimplePolynomial

def combine (op : BinOp) (p q : Polynomial) : Except Error Polynomial :=
  match op with
  | .add => .ok (p.add q)
  | .sub => .ok (p.sub q)
  | .mul => .ok (p.mul q)
  | .pow => p.power q
  | op => .error (.equationOperator op.sign)

def known (s : Scope) (x : String) : Except Error Rat :=
  match s.lookup? x with
  | none => .error (.undefinedVariable x)
  | some (.rational q) => .ok q
  | some v =>
    match v.number? with
    | some n => n.settled
    | none => .error (.notNumberInEquation x)

/-- Data in the place of an expression counts as zero, unless it has the form of one. -/
def ofDatum : Datum → Except Error Polynomial
  | .tuple (d :: _) => .error (.equationNode d.shown)
  | _ => .ok (constant 0)

/-- The polynomial in `x` that an expression is. All other names stand for their values. -/
def ofExpr (s : Scope) (x : String) : Expr → Except Error Polynomial
  | .absent => .ok (constant 0)
  | .number t => constant <$> Rational.read t
  | .var y => if y = x then .ok (monomial 1) else constant <$> known s y
  | .unary op e => do
    let p ← ofExpr s x e
    match op with
    | .neg => return p.neg
    | .other sign => .error (.equationUnary sign)
  | .binary op l r => do
    let p ← ofExpr s x l
    let q ← ofExpr s x r
    combine op p q
  | .imaginary => .error (.equationNode "imaginary")
  | .call .. => .error (.equationNode "call")
  | .matrix _ => .error (.equationNode "matrix")
  | .other d => ofDatum d

def termText (x : String) (k : Int) (c : Rat) : String :=
  let power := if k = 1 then x else x ++ "^" ++ toString k
  if k = 0 then Rational.text c
  else if c = 1 then power
  else Rational.text c ++ " * " ++ power

def signedText (first : Bool) (x : String) (k : Int) (c : Rat) : String :=
  let sign := if first then if c < 0 then "-" else "" else if c < 0 then "- " else "+ "
  sign ++ termText x k c.abs

/-- The terms that are not zero, the highest power first. -/
def shownTerms (p : Polynomial) : List (Int × Rat) :=
  Sorted.sort (fun s t => decide (t.1 ≤ s.1)) (p.terms.filter (fun t => t.2 != 0))

def text (p : Polynomial) (x : String) : String :=
  match p.shownTerms with
  | [] => "0"
  | t :: ts =>
    String.intercalate " "
      (signedText true x t.1 t.2 :: ts.map (fun s => signedText false x s.1 s.2))

def tooLong (p : Polynomial) : Bool :=
  p.shownTerms.any (fun t => Rational.tooLong t.2 || Rational.isLong t.1.natAbs)

def text? (p : Polynomial) (x : String) : Except Error String :=
  if p.tooLong then .error .printedTooLong else .ok (p.text x)

end Polynomial
end Reckoner
