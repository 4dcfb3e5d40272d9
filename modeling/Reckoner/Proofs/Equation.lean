import Reckoner.Equation
import Reckoner.Proofs.Literal
import Reckoner.Proofs.Outcome
import Reckoner.Proofs.Polynomial

open Polynomial

namespace Reckoner
open Numeral Outcome

namespace Expr

/-- Polynomials in `x` as they are written, from integer literals and the variable. -/
inductive IsPolynomial (x : String) : Expr → Prop
  | number {t : String} (h : IsLiteral t) : IsPolynomial x (.number t)
  | var : IsPolynomial x (.var x)
  | neg {e : Expr} (h : IsPolynomial x e) : IsPolynomial x (.unary .neg e)
  | add {l r : Expr} (hl : IsPolynomial x l) (hr : IsPolynomial x r) :
      IsPolynomial x (.binary .add l r)
  | sub {l r : Expr} (hl : IsPolynomial x l) (hr : IsPolynomial x r) :
      IsPolynomial x (.binary .sub l r)
  | mul {l r : Expr} (hl : IsPolynomial x l) (hr : IsPolynomial x r) :
      IsPolynomial x (.binary .mul l r)
  | pow {t : String} (h : IsLiteral t) : IsPolynomial x (.binary .pow (.var x) (.number t))

noncomputable def poly : Expr → ℚ[X]
  | .number t => C (literalValue t : ℚ)
  | .var _ => X
  | .unary .neg e => -poly e
  | .binary .add l r => poly l + poly r
  | .binary .sub l r => poly l - poly r
  | .binary .mul l r => poly l * poly r
  | .binary .pow _ (.number t) => X ^ literalValue t
  | _ => 0

/-- The highest power that is written, whether it cancels or not. -/
def writtenDegree : Expr → Nat
  | .var _ => 1
  | .unary _ e => writtenDegree e
  | .binary .add l r | .binary .sub l r => max (writtenDegree l) (writtenDegree r)
  | .binary .mul l r => writtenDegree l + writtenDegree r
  | .binary .pow _ (.number t) => literalValue t
  | _ => 0

/-- No literal has more digits than can be read. -/
def ReadableLiterals : Expr → Prop
  | .number t => Readable t
  | .unary _ e => ReadableLiterals e
  | .binary _ l r => ReadableLiterals l ∧ ReadableLiterals r
  | _ => True

end Expr

namespace Polynomial
variable {s : Scope} {x : String} {e : Expr}

/-- Written powers go together with the terms of the polynomial. -/
theorem ofExpr_represents (h : e.IsPolynomial x) (hr : e.ReadableLiterals) :
    ∃ p, ofExpr s x e = .ok p ∧ p.Represents e.poly e.writtenDegree := by
  induction h with
  | number h =>
    have hr : Readable _ := hr
    exact ⟨_, by simp [ofExpr, Rational.read_literal h, hr], represents_constant _⟩
  | var =>
    exact ⟨monomial 1, by simp [ofExpr],
      by simpa [Expr.poly, Expr.writtenDegree] using represents_monomial 1⟩
  | neg h ih =>
    obtain ⟨p, hp, hrep⟩ := ih hr
    exact ⟨p.neg, by simp [ofExpr, hp], hrep.neg⟩
  | add hl hr' ihl ihr =>
    obtain ⟨p, hp, hrep⟩ := ihl hr.1
    obtain ⟨q, hq, hreq⟩ := ihr hr.2
    exact ⟨p.add q, by simp [ofExpr, hp, hq, combine], hrep.add hreq⟩
  | sub hl hr' ihl ihr =>
    obtain ⟨p, hp, hrep⟩ := ihl hr.1
    obtain ⟨q, hq, hreq⟩ := ihr hr.2
    exact ⟨p.sub q, by simp [ofExpr, hp, hq, combine], hrep.sub hreq⟩
  | mul hl hr' ihl ihr =>
    obtain ⟨p, hp, hrep⟩ := ihl hr.1
    obtain ⟨q, hq, hreq⟩ := ihr hr.2
    exact ⟨p.mul q, by simp [ofExpr, hp, hq, combine], hrep.mul hreq⟩
  | @pow t h =>
    have hr : Readable t := hr.2
    refine ⟨monomial (literalValue t), ?_, represents_monomial _⟩
    simp [ofExpr, Rational.read_literal h, hr, combine, power, constant?, constant, isVariable,
      monomial]

/-- A literal that cannot be read leaves no polynomial. -/
theorem ofExpr_error (h : e.IsPolynomial x) (hr : ¬ e.ReadableLiterals) :
    ∃ err, ofExpr s x e = .error err := by
  have pair {l r : Expr} {op : BinOp} (hl : l.IsPolynomial x)
      (ihl : ¬ l.ReadableLiterals → ∃ err, ofExpr s x l = .error err)
      (ihr : ¬ r.ReadableLiterals → ∃ err, ofExpr s x r = .error err)
      (hr : ¬ (l.ReadableLiterals ∧ r.ReadableLiterals)) :
      ∃ err, ofExpr s x (.binary op l r) = .error err := by
    by_cases hrl : l.ReadableLiterals
    · obtain ⟨p, hp, -⟩ := ofExpr_represents (s := s) hl hrl
      obtain ⟨err, he⟩ := ihr (fun h => hr ⟨hrl, h⟩)
      exact ⟨err, by simp [ofExpr, hp, he]⟩
    · obtain ⟨err, he⟩ := ihl hrl
      exact ⟨err, by simp [ofExpr, he]⟩
  induction h with
  | number h =>
    have hr : ¬ Readable _ := hr
    exact ⟨_, by simp [ofExpr, Rational.read_literal h, hr]; rfl⟩
  | var => exact absurd trivial hr
  | neg h ih =>
    obtain ⟨err, he⟩ := ih hr
    exact ⟨err, by simp [ofExpr, he]⟩
  | add hl _ ihl ihr | sub hl _ ihl ihr | mul hl _ ihl ihr => exact pair hl ihl ihr hr
  | pow h =>
    have hr : ¬ Readable _ := fun h => hr ⟨trivial, h⟩
    exact ⟨_, by simp [ofExpr, Rational.read_literal h, hr]; rfl⟩

end Polynomial
end Reckoner
