import Reckoner.Proofs.Equation.Answers
import Reckoner.Proofs.Expr

namespace Reckoner

theorem Rational.tooLong_neg (q : Rat) : tooLong (-q) = tooLong q := by
  rw [tooLong, tooLong, Rat.num_neg_eq_neg_num, Rat.den_neg_eq_den, Int.natAbs_neg]

namespace Equation
open Outcome

variable {s : Scope} {x : String} {left right : Expr} {p q d : Polynomial} {a : Answer} {r : Roots}
  {n : Int}

def conclude (x : String) (d : Polynomial) : Except Error Answer :=
  if 2 < d.degree then .ok .degreeTooHigh
  else if isUnwritable d then .error .printedTooLong
  else Answer.reduced d x d.degree <$> rootsOf d d.degree

theorem conclude_eq_ok : conclude x d = .ok a ↔
    2 < d.degree ∧ a = .degreeTooHigh ∨
    d.degree ≤ 2 ∧ isUnwritable d = false ∧
      ∃ r, rootsOf d d.degree = .ok r ∧ a = .reduced d x d.degree r := by
  unfold conclude
  by_cases hdegree : 2 < d.degree
  · rw [if_pos hdegree]
    constructor
    · rintro ⟨⟩
      exact .inl ⟨hdegree, rfl⟩
    · rintro (⟨-, rfl⟩ | ⟨hle, -⟩)
      · rfl
      · exact absurd hdegree hle.not_gt
  · rw [if_neg hdegree]
    by_cases hlong : isUnwritable d = true
    · simp [hdegree, hlong]
    · simp only [hdegree, hlong, if_false, false_and, false_or, map_eq_ok, Bool.false_eq_true,
        not_lt.mp hdegree, true_and, eq_comm (a := a)]

/-- Once the sides are polynomials in the unknown, their difference alone decides on the answer. -/
theorem solveFor_eq_conclude {l r : Expr} (hp : Polynomial.ofExpr s x l = .ok p)
    (hq : Polynomial.ofExpr s x r = .ok q) : solveFor s x l r = conclude x (p.sub q) := by
  simp only [solveFor, hp, hq, ok_bind, conclude, map_eq_pure_bind]
  rfl

/-- With calls written out, the sides are polynomials in `x` with the difference `d`. -/
structure Reduces (s : Scope) (left right : Expr) (x : String) (d : Polynomial) : Prop where
  sides : ∃ l r p q, expand s left = .ok l ∧ expand s right = .ok r ∧ unknown? l r = some x ∧
    Polynomial.ofExpr s x l = .ok p ∧ Polynomial.ofExpr s x r = .ok q ∧ d = p.sub q

/-- The difference of the sides decides on the answer. -/
theorem solve_eq_conclude (h : Reduces s left right x d) :
    solve s left right = conclude x d := by
  obtain ⟨l, r, p, q, hl, hr, hu, hp, hq, rfl⟩ := h.sides
  simp only [solve, hl, hr, ok_bind, hu]
  exact solveFor_eq_conclude hp hq

/-- An answer with a reduced form comes from the difference of the sides. -/
theorem reduces_of_solve (h : solve s left right = .ok (.reduced d x n r)) :
    Reduces s left right x d ∧ n = d.degree ∧ d.degree ≤ 2 ∧ rootsOf d d.degree = .ok r := by
  obtain ⟨l, hl, h⟩ := bind_eq_ok.mp h
  obtain ⟨e, he, h⟩ := bind_eq_ok.mp h
  split at h
  · rename_i y hu
    obtain ⟨p, hp, h'⟩ := bind_eq_ok.mp h
    obtain ⟨q, hq, -⟩ := bind_eq_ok.mp h'
    rw [solveFor_eq_conclude hp hq, conclude_eq_ok] at h
    rcases h with ⟨-, h⟩ | ⟨hle, -, roots, hroots, h⟩
    · cases h
    · cases h
      exact ⟨⟨l, e, p, q, hl, he, hu, hp, hq, rfl⟩, rfl, hle, hroots⟩
  · obtain ⟨v, -, h⟩ := bind_eq_ok.mp h
    obtain ⟨w, -, h⟩ := bind_eq_ok.mp h
    split at h <;> cases h

end Equation
end Reckoner
