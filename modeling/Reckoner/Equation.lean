import Reckoner.Equation.Expand
import Reckoner.Eval
import Reckoner.Polynomial

namespace Reckoner.Equation

/-- What is said of the roots of a polynomial, with the discriminant of a quadratic one. -/
inductive Roots where
  | all
  | none
  | single (x : Rat)
  /-- A positive discriminant. -/
  | real (discriminant x₁ x₂ : Rat)
  /-- A discriminant of zero. -/
  | double (discriminant x : Rat)
  /-- A negative discriminant. -/
  | complex (discriminant : Rat) (z₁ z₂ : GaussRat)

inductive Answer where
  | always
  | never
  | degreeTooHigh
  | reduced (p : Polynomial) (x : String) (degree : Int) (roots : Roots)

def Roots.text : Roots → String
  | all => "All real numbers are solutions"
  | none => "No solution"
  | single x => "The solution is:\n" ++ Rational.text x
  | real d x₁ x₂ =>
    "Discriminant: " ++ Rational.text d
      ++ "\nDiscriminant is strictly positive, the two solutions are:\n"
      ++ Rational.text x₁ ++ "\n" ++ Rational.text x₂
  | double d x =>
    "Discriminant: " ++ Rational.text d ++ "\nDiscriminant is zero, the solution is:\n"
      ++ Rational.text x
  | complex d z₁ z₂ =>
    "Discriminant: " ++ Rational.text d
      ++ "\nDiscriminant is strictly negative, the two complex solutions are:\n"
      ++ z₁.text ++ "\n" ++ z₂.text

def Answer.text : Answer → String
  | always => "The equation is always true"
  | never => "The equation has no solution"
  | degreeTooHigh => "The polynomial degree is strictly greater than 2, I can't solve."
  | reduced p x degree roots =>
    "Reduced form: " ++ p.text x ++ " = 0\nPolynomial degree: " ++ toString degree ++ "\n"
      ++ roots.text

def writable (q : Rat) : Except Error Rat :=
  if Rational.tooLong q then .error .printedTooLong else .ok q

def root (q : Rat) : Except Error Rat := do
  let x ← Rational.toDouble q
  let y ← Double.power x 0.5
  return Rational.settle (← Rational.ofDouble y)

def quotient (p q : Rat) : Except Error Rat :=
  if q = 0 then .error .divisionByZero else .ok (p / q)

def quadratic (a b c : Rat) : Except Error Roots := do
  let d ← writable (b * b - 4 * a * c)
  if 0 < d then
    let s ← root d
    let x₁ ← quotient (-b + s) (2 * a)
    let x₂ ← quotient (-b - s) (2 * a)
    return .real d (← writable x₁) (← writable x₂)
  else if d = 0 then
    let x ← quotient (-b) (2 * a)
    return .double d (← writable x)
  else
    let re ← quotient (-b) (2 * a)
    let s ← root (-d)
    let im ← quotient s (2 * a)
    return .complex d ⟨← writable re, ← writable im⟩ ⟨re, -im⟩

def rootsOf (p : Polynomial) (degree : Int) : Except Error Roots :=
  let a := p.coeff 2
  let b := p.coeff 1
  let c := p.coeff 0
  if degree = 0 then .ok (if c = 0 then .all else .none)
  else if degree = 1 then
    if b = 0 then .ok .none else do return .single (← writable (-c / b))
  else quadratic a b c

/-- The unknown: the first variable on the left, else the first on the right. -/
def unknown? (l r : Expr) : Option String :=
  match l.firstVariable? with
  | some x => some x
  | none => r.firstVariable?

/-- Whether the reduced form or its degree is too long to be written. A degree may be negative, and
of any size. -/
def isUnwritable (d : Polynomial) : Bool :=
  d.tooLong || Rational.isLong d.degree.natAbs

def solveFor (s : Scope) (x : String) (l r : Expr) : Except Error Answer := do
  let p ← Polynomial.ofExpr s x l
  let q ← Polynomial.ofExpr s x r
  let d := p.sub q
  if 2 < d.degree then return .degreeTooHigh
  else if isUnwritable d then .error .printedTooLong
  else return .reduced d x d.degree (← rootsOf d d.degree)

/-- An equation without an unknown holds always or never. -/
def compare (s : Scope) (l r : Expr) : Except Error Answer := do
  let a ← s.eval l
  let b ← s.eval r
  return if a.same b then .always else .never

/-- The two sides are written out and brought to one side, as a polynomial in the first variable
found; up to degree two its roots are given. Square roots go by way of doubles, all else is
exact. -/
def solve (s : Scope) (left right : Expr) : Except Error Answer := do
  let l ← expand s left
  let r ← expand s right
  match unknown? l r with
  | some x => solveFor s x l r
  | none => compare s l r

end Reckoner.Equation
