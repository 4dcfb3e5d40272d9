import Mathlib
import Reckoner.Proofs.Equation.Reduction
import Reckoner.Proofs.Polynomial.Values

open Polynomial

namespace Reckoner.Equation
open Outcome

def Roots.only? : Roots → Option Rat
  | single x | double _ x => some x
  | all | none | real .. | complex .. => Option.none

/-- A side of an equation in `x`, with its calls written out in `e'`, that means to the solver what
it means to the evaluator. The solver cuts exponents to integers and passes over negative powers. -/
structure Understood (s : Scope) (x : String) (e e' : Expr) : Prop where
  expands : expand s e = .ok e'
  inlinable : e.Inlinable s x
  tame : Polynomial.Tame s x e'

section Roots
variable {a b c q : Rat} {r : Roots} {d : Polynomial} {P : ℚ[X]} {m : Nat}

/-- A double root of a quadratic is worked out without rounding. -/
theorem quadratic_only (h : quadratic a b c = .ok r) (hq : r.only? = some q) :
    c + b * q + a * q ^ 2 = 0 := by
  rcases lt_trichotomy 0 (b * b - 4 * a * c) with hpos | hzero | hneg
  · obtain ⟨-, -, s, -, -, -, rfl⟩ := (quadratic_of_pos hpos).mp h
    cases hq
  · obtain ⟨ha, -, rfl⟩ := (quadratic_of_eq_zero hzero.symm).mp h
    cases hq
    have hc : b * b = 4 * a * c := (sub_eq_zero.mp hzero.symm)
    field_simp
    linear_combination -hc
  · obtain ⟨-, -, s, -, -, -, rfl⟩ := (quadratic_of_neg hneg).mp h
    cases hq

/-- An only solution is a root. -/
theorem rootsOf_only (h : d.Represents P m) (hm : m ≤ 2) (hr : rootsOf d m = .ok r)
    (hq : r.only? = some q) : P.eval q = 0 := by
  have hdegree : P.natDegree < m + 1 := Nat.lt_succ_of_le h.natDegree_le
  rw [rootsOf_eq h] at hr
  match m, hm with
  | 0, _ =>
    cases hr
    split at hq <;> cases hq
  | 1, _ =>
    rw [if_neg (by decide), if_pos (by decide)] at hr
    split at hr
    · cases hr
      cases hq
    · rename_i hb
      obtain ⟨y, hy, rfl⟩ := map_eq_ok.mp hr
      cases hq
      rw [← (writable_eq_ok.mp hy).2, eval_eq_sum_range' hdegree]
      simp only [Finset.sum_range_succ, Finset.sum_range_zero]
      field_simp
      ring
  | 2, _ =>
    rw [if_neg (by decide), if_neg (by decide)] at hr
    have hroot := quadratic_only hr hq
    rw [eval_eq_sum_range' hdegree]
    simp only [Finset.sum_range_succ, Finset.sum_range_zero]
    linear_combination hroot

end Roots

/-- Where the unknown is bound to the only solution, both sides evaluate to one number. -/
theorem solve_exact (s : Scope) (left right l r : Expr) (x : String) (d : Polynomial) (n : Int)
    (roots : Roots) (q : Rat) (hl : Understood s x left l) (hr : Understood s x right r)
    (h : solve s left right = .ok (.reduced d x n roots)) (hq : roots.only? = some q) :
    ∃ v, (s.bind x (.rational q)).eval left = .ok (.rational v) ∧
      (s.bind x (.rational q)).eval right = .ok (.rational v) := by
  obtain ⟨hred, -, hdegree, hroots⟩ := reduces_of_solve h
  obtain ⟨l', r', p₁, p₂, hl', hr', -, h₁, h₂, rfl⟩ := hred.sides
  cases hl.expands.symm.trans hl'
  cases hr.expands.symm.trans hr'
  obtain ⟨P, m, hP, hevalP⟩ := Polynomial.ofExpr_evaluates hl.tame h₁
  obtain ⟨Q, k, hQ, hevalQ⟩ := Polynomial.ofExpr_evaluates hr.tame h₂
  have hsub := hP.sub hQ
  rw [hsub.degree_eq] at hdegree hroots
  have hzero : (P - Q).eval q = 0 := rootsOf_only hsub (by exact_mod_cast hdegree) hroots hq
  rw [eval_sub, sub_eq_zero] at hzero
  refine ⟨P.eval q, hl.inlinable.eval_eq hl.expands (hevalP q), ?_⟩
  rw [hzero]
  exact hr.inlinable.eval_eq hr.expands (hevalQ q)

def trinomial : Expr :=
  .binary .add (.binary .add (.binary .pow (.var "x") (.number "2"))
    (.binary .mul (.number "2") (.var "x"))) (.number "1")

def perfectSquare : Scope where
  bindings := [("y", .rational 0), ("funa", .function ⟨"x", trinomial, some "funA"⟩)]
  mode := .radians
  home := .session

theorem perfectSquare_reaches {e : Expr} {f : UserFunction} (h : perfectSquare.Reaches e f) :
    f = ⟨"x", trinomial, some "funA"⟩ := by
  obtain ⟨g, hg⟩ : ∃ g, perfectSquare.function? g = some f := by
    cases h with
    | called _ hf => exact ⟨_, hf⟩
    | inBody _ _ hf => exact ⟨_, hf⟩
  have hm := Scope.mem_of_function? hg
  simp only [perfectSquare, List.mem_cons, Prod.mk.injEq, Value.function.injEq, reduceCtorEq,
    and_false, List.not_mem_nil, or_false, false_or] at hm
  exact hm.2

theorem perfectSquare_inlinable {e : Expr} (he : ∀ g, e.calls g = true → g = "funA") :
    e.Inlinable perfectSquare "x" := by
  refine ⟨?_, ?_, ?_, ?_⟩
  · intro f hf g hg
    rw [perfectSquare_reaches hf] at hg
    simp [trinomial, Expr.calls] at hg
  · intro f hf y hy hne
    rw [perfectSquare_reaches hf] at hy hne
    have hy' : "x" = y := by simpa [trinomial, Expr.mentions] using hy
    exact absurd hy'.symm hne
  · intro f hf
    rw [perfectSquare_reaches hf]
    decide
  · intro g hg
    refine ⟨?_, fun f hf => ?_⟩
    · rw [Bool.eq_false_iff]
      intro hcalls
      rw [he g hcalls] at hg
      exact absurd hg (by decide)
    · rw [perfectSquare_reaches hf]
      simp [trinomial, Expr.calls]

/-- `funA(x) = y` has the solution -1 only, and there both sides have one value. -/
theorem solve_exact_perfectSquare :
    let left := Expr.call "funA" (.var "x")
    let right := Expr.var "y"
    let reduced := Polynomial.mk [(2, 1), (1, 2), (0, 1)]
    (Understood perfectSquare "x" left trinomial ∧ Understood perfectSquare "x" right right ∧
      solve perfectSquare left right = .ok (.reduced reduced "x" 2 (.double 0 (-1))) ∧
      (Roots.double 0 (-1)).only? = some (-1)) ∧
    ∃ v, (perfectSquare.bind "x" (.rational (-1))).eval left = .ok (.rational v) ∧
      (perfectSquare.bind "x" (.rational (-1))).eval right = .ok (.rational v) := by
  intro left right reduced
  have htame : Polynomial.Tame perfectSquare "x" trinomial := by
    refine ⟨⟨⟨.inl rfl, ?_, fun _ q c hq hc => ⟨2, ?_⟩⟩, ⟨?_, .inl rfl, nofun⟩, nofun⟩, ?_, nofun⟩
    · with_unfolding_all rfl
    · cases hq
      cases hc
      with_unfolding_all rfl
    · with_unfolding_all rfl
    · with_unfolding_all rfl
  have hleft : Understood perfectSquare "x" left trinomial := by
    refine ⟨by with_unfolding_all rfl, perfectSquare_inlinable fun g hg => ?_, htame⟩
    have hg' : "funA" = g := by simpa [left, Expr.calls] using hg
    exact hg'.symm
  have hright : Understood perfectSquare "x" right right := by
    have hy : perfectSquare.lookup? "y" = some (.rational 0) := by with_unfolding_all rfl
    exact ⟨by with_unfolding_all rfl, perfectSquare_inlinable (by simp [right, Expr.calls]),
      .inr ⟨by decide, by simp [hy]⟩⟩
  have hsolve : solve perfectSquare left right =
      .ok (.reduced reduced "x" 2 (.double 0 (-1))) := by with_unfolding_all rfl
  exact ⟨⟨hleft, hright, hsolve, rfl⟩,
    solve_exact _ left right trinomial right "x" reduced 2 _ (-1) hleft hright hsolve rfl⟩

/-- The negative power is passed over in `x^(-1) + x = 1`: the solution that is given is 1, where
the left side is 2. -/
example :
    let left := Expr.binary .add (.binary .pow (.var "x") (.unary .neg (.number "1"))) (.var "x")
    solve .empty left (.number "1") =
      .ok (.reduced ⟨[(-1, 1), (1, 1), (0, -1)]⟩ "x" 1 (.single 1)) ∧
    (Scope.bind .empty "x" (.rational 1)).eval left = .ok (.rational 2) := by
  constructor <;> with_unfolding_all rfl

end Reckoner.Equation
