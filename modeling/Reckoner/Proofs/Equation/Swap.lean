import Mathlib
import Reckoner.Proofs.Equation.Reduction

namespace Reckoner
open Outcome

section Comparison

theorem PlainNumber.same_comm (a b : PlainNumber) : a.same b = b.same a := by
  have hreal (x y : Float) : (x == y) = (y == x) := by
    rw [Bool.eq_iff_iff, Float.beq_iff_ne_nan_and_eq, Float.beq_iff_ne_nan_and_eq]
    grind
  cases a with
  | whole m =>
    cases b with
    | whole n => exact BEq.comm
    | real y => rfl
  | real x =>
    cases b with
    | whole n => rfl
    | real y => exact hreal x y

mutual
theorem Datum.same_comm (a b : Datum) : a.same b = b.same a := by
  cases a with
  | tuple xs =>
    cases b with
    | tuple ys => exact Datum.sameItems_comm xs ys
    | _ => rfl
  | list xs =>
    cases b with
    | list ys => exact Datum.sameItems_comm xs ys
    | _ => rfl
  | text s =>
    cases b with
    | text t => exact BEq.comm
    | _ => rfl
  | absent | dict => cases b <;> rfl
  | bool | int | float =>
    cases b with
    | bool | int | float =>
      simp only [Datum.same, Datum.number?]
      exact PlainNumber.same_comm _ _
    | _ => rfl

theorem Datum.sameItems_comm (xs ys : List Datum) :
    Datum.sameItems xs ys = Datum.sameItems ys xs := by
  cases xs with
  | nil => cases ys <;> rfl
  | cons x xs =>
    cases ys with
    | nil => rfl
    | cons y ys =>
      rw [Datum.sameItems, Datum.sameItems, Datum.same_comm x y, Datum.sameItems_comm xs ys]
end

/-- Values are compared alike in both orders. -/
theorem Value.same_comm (a b : Value) : a.same b = b.same a := by
  cases a with
  | rational p =>
    cases b with
    | rational q => exact BEq.comm
    | _ => rfl
  | complex w =>
    cases b with
    | complex z => exact BEq.comm
    | _ => rfl
  | matrix m =>
    cases b with
    | matrix n => exact BEq.comm
    | _ => rfl
  | plain c =>
    cases b with
    | plain d => exact Datum.same_comm c d
    | _ => rfl
  | function | builtin => cases b <;> rfl

end Comparison

namespace Polynomial
variable {p q : Polynomial}

/-- The same powers, with coefficients of the opposite sign. -/
structure Opposite (p q : Polynomial) : Prop where
  nodup_left : (powers p.terms).Nodup
  nodup_right : (powers q.terms).Nodup
  powers_iff : ∀ k, k ∈ powers p.terms ↔ k ∈ powers q.terms
  coeff_eq : ∀ k, q.coeff k = -p.coeff k

/-- Taken the other way round, a difference is opposite. -/
theorem opposite_sub (hp : (powers p.terms).Nodup) (hq : (powers q.terms).Nodup) :
    Opposite (p.sub q) (q.sub p) where
  nodup_left := nodup_powers_foldl_bump id _ hp
  nodup_right := nodup_powers_foldl_bump id _ hq
  powers_iff := fun k => by rw [mem_powers_sub, mem_powers_sub, or_comm]
  coeff_eq := fun k => by rw [coeff_sub_eq hp, coeff_sub_eq hq, neg_sub]

namespace Opposite

theorem symm (h : Opposite p q) : Opposite q p where
  nodup_left := h.nodup_right
  nodup_right := h.nodup_left
  powers_iff := fun k => (h.powers_iff k).symm
  coeff_eq := fun k => by rw [h.coeff_eq, neg_neg]

/-- Opposite polynomials have one degree, as the same powers occur in them. -/
theorem degree_eq (h : Opposite p q) : p.degree = q.degree := by
  have hset : {k | k ∈ powers p.terms} = {k | k ∈ powers q.terms} := Set.ext h.powers_iff
  have hnil : p.terms = [] ↔ q.terms = [] := by
    have hpowers := h.powers_iff
    rw [← List.map_eq_nil_iff (f := Prod.fst), ← List.map_eq_nil_iff (f := Prod.fst),
      List.eq_nil_iff_forall_not_mem, List.eq_nil_iff_forall_not_mem]
    exact forall_congr' fun k => not_congr (hpowers k)
  by_cases hp : p.terms = []
  · rw [degree, degree, hp, hnil.mp hp]
  · have hgreatest := isGreatest_degree hp
    rw [hset] at hgreatest
    exact hgreatest.unique (isGreatest_degree (hnil.not.mp hp))

theorem mem_terms (h : Opposite p q) {t : Int × Rat} (ht : t ∈ p.terms) :
    (t.1, -t.2) ∈ q.terms := by
  obtain ⟨hk, hc⟩ := (mem_terms_iff h.nodup_left t).mp ht
  exact (mem_terms_iff h.nodup_right _).mpr ⟨(h.powers_iff _).mp hk, by rw [h.coeff_eq, hc]⟩

theorem tooLong_of_tooLong (h : Opposite p q) (hp : p.tooLong = true) : q.tooLong = true := by
  obtain ⟨t, ht, hlong⟩ := List.any_eq_true.mp hp
  obtain ⟨hmem, hne⟩ := (mem_shownTerms p t).mp ht
  refine List.any_eq_true.mpr ⟨(t.1, -t.2), (mem_shownTerms q _).mpr ⟨h.mem_terms hmem, ?_⟩, ?_⟩
  · simpa using hne
  · rwa [Rational.tooLong_neg]

theorem tooLong_eq (h : Opposite p q) : p.tooLong = q.tooLong :=
  Bool.eq_iff_iff.mpr ⟨h.tooLong_of_tooLong, h.symm.tooLong_of_tooLong⟩

end Opposite

/-- Each power occurs once in the polynomial of an expression. -/
theorem nodup_ofExpr {s : Scope} {x : String} {e : Expr} (h : ofExpr s x e = .ok p) :
    (powers p.terms).Nodup := by
  induction e generalizing p with
  | absent =>
    cases h
    exact List.nodup_singleton _
  | number t =>
    obtain ⟨c, -, rfl⟩ := map_eq_ok.mp h
    exact List.nodup_singleton _
  | var y =>
    unfold ofExpr at h
    split at h
    · cases h
      exact List.nodup_singleton _
    · obtain ⟨c, -, rfl⟩ := map_eq_ok.mp h
      exact List.nodup_singleton _
  | unary op e ih =>
    obtain ⟨q, hq, h⟩ := bind_eq_ok.mp h
    cases op with
    | other sign => cases h
    | neg =>
      cases h
      rw [powers_neg]
      exact ih hq
  | binary op l r ihl ihr =>
    obtain ⟨p₁, h₁, h⟩ := bind_eq_ok.mp h
    obtain ⟨p₂, h₂, h⟩ := bind_eq_ok.mp h
    cases op with
    | add | sub =>
      cases h
      exact nodup_powers_foldl_bump id _ (ihl h₁)
    | mul =>
      cases h
      exact nodup_powers_mulInto p₂.terms p₁.terms List.nodup_nil
    | pow =>
      simp only [combine, power] at h
      split at h
      · split at h
        · cases h
          exact List.nodup_singleton _
        · cases h
      · cases h
    | div | mod | matMul | other => cases h
  | imaginary | call | matrix => cases h
  | other d =>
    unfold ofExpr ofDatum at h
    split at h
    · cases h
    · cases h
      exact List.nodup_singleton _

end Polynomial

namespace Equation
open Reckoner.Polynomial (Opposite opposite_sub nodup_ofExpr)

/-- The same conclusion, with two solutions in the other order. -/
inductive Roots.Swapped : Roots → Roots → Prop
  | all : Swapped .all .all
  | none : Swapped .none .none
  | single (x : Rat) : Swapped (.single x) (.single x)
  | real (d x₁ x₂ : Rat) : Swapped (.real d x₁ x₂) (.real d x₂ x₁)
  | double (d x : Rat) : Swapped (.double d x) (.double d x)
  | complex (d : Rat) (z₁ z₂ : GaussRat) : Swapped (.complex d z₁ z₂) (.complex d z₂ z₁)

/-- The same answer for the opposite polynomial. -/
inductive Answer.Swapped : Answer → Answer → Prop
  | always : Swapped .always .always
  | never : Swapped .never .never
  | degreeTooHigh : Swapped .degreeTooHigh .degreeTooHigh
  | reduced {p q : Polynomial} {r r' : Roots} (x : String) (n : Int)
      (hp : ∀ k, q.coeff k = -p.coeff k) (hr : r.Swapped r') :
      Swapped (.reduced p x n r) (.reduced q x n r')

section Roots
variable {a b c : Rat} {r : Roots}

/-- With all coefficients negated the two roots change places. -/
theorem quadratic_neg (h : quadratic a b c = .ok r) :
    ∃ r', quadratic (-a) (-b) (-c) = .ok r' ∧ r.Swapped r' := by
  have hd : -b * -b - 4 * -a * -c = b * b - 4 * a * c := by ring
  have hneg (t : Rat) : t / (2 * -a) = -(t / (2 * a)) := by rw [mul_neg, div_neg]
  rcases lt_trichotomy 0 (b * b - 4 * a * c) with hpos | hzero | hneg'
  · obtain ⟨hlong, ha, s, hs, h₁, h₂, rfl⟩ := (quadratic_of_pos hpos).mp h
    have hx₁ : (- -b + s) / (2 * -a) = (-b - s) / (2 * a) := by rw [hneg]; ring
    have hx₂ : (- -b - s) / (2 * -a) = (-b + s) / (2 * a) := by rw [hneg]; ring
    refine ⟨_, (quadratic_of_pos (hd ▸ hpos)).mpr ⟨hd ▸ hlong, neg_ne_zero.mpr ha, s, hd ▸ hs,
      ?_, ?_, rfl⟩, ?_⟩
    · rwa [hx₁]
    · rwa [hx₂]
    · rw [hd, hx₁, hx₂]
      exact .real _ _ _
  · obtain ⟨ha, hx, rfl⟩ := (quadratic_of_eq_zero hzero.symm).mp h
    have hx' : - -b / (2 * -a) = -b / (2 * a) := by rw [hneg]; ring
    refine ⟨_, (quadratic_of_eq_zero (hd.trans hzero.symm)).mpr ⟨neg_ne_zero.mpr ha, ?_, rfl⟩, ?_⟩
    · rwa [hx']
    · rw [hx']
      exact .double _ _
  · obtain ⟨hlong, ha, s, hs, hre, him, rfl⟩ := (quadratic_of_neg hneg').mp h
    have hre' : - -b / (2 * -a) = -b / (2 * a) := by rw [hneg]; ring
    refine ⟨_, (quadratic_of_neg (hd ▸ hneg')).mpr ⟨hd ▸ hlong, neg_ne_zero.mpr ha, s, hd ▸ hs,
      ?_, ?_, rfl⟩, ?_⟩
    · rwa [hre']
    · rwa [hneg, Rational.tooLong_neg]
    · rw [hd, hre', hneg, neg_neg]
      exact .complex _ _ _

/-- Opposite polynomials have the same roots. -/
theorem rootsOf_opposite {p q : Polynomial} (h : Opposite p q) {n : Int}
    (hr : rootsOf p n = .ok r) : ∃ r', rootsOf q n = .ok r' ∧ r.Swapped r' := by
  simp only [rootsOf, h.coeff_eq, neg_eq_zero] at hr ⊢
  by_cases h0 : n = 0
  · rw [if_pos h0] at hr ⊢
    cases hr
    refine ⟨_, rfl, ?_⟩
    split
    · exact .all
    · exact .none
  rw [if_neg h0] at hr ⊢
  by_cases h1 : n = 1
  · rw [if_pos h1] at hr ⊢
    by_cases hb : p.coeff 1 = 0
    · rw [if_pos hb] at hr ⊢
      cases hr
      exact ⟨_, rfl, .none⟩
    · rw [if_neg hb] at hr ⊢
      obtain ⟨x, hx, hr⟩ := bind_eq_ok.mp hr
      cases hr
      have hquot : - -p.coeff 0 / -p.coeff 1 = -p.coeff 0 / p.coeff 1 := by
        rw [div_neg, neg_div, neg_neg, neg_div]
      rw [hquot, hx]
      exact ⟨_, rfl, .single x⟩
  · rw [if_neg h1] at hr ⊢
    exact quadratic_neg hr

end Roots

section Sides
variable {s : Scope} {l r : Expr} {x : String} {a : Answer}

theorem conclude_opposite {d d' : Polynomial} (hopp : Opposite d d') (h : conclude x d = .ok a) :
    ∃ b, conclude x d' = .ok b ∧ a.Swapped b := by
  rcases conclude_eq_ok.mp h with ⟨hdegree, rfl⟩ | ⟨hdegree, hlong, roots, hroots, rfl⟩
  · exact ⟨_, conclude_eq_ok.mpr (.inl ⟨hopp.degree_eq ▸ hdegree, rfl⟩), .degreeTooHigh⟩
  · obtain ⟨roots', hroots', hswap⟩ := rootsOf_opposite hopp hroots
    rw [hopp.degree_eq] at hdegree hroots'
    rw [isUnwritable, hopp.tooLong_eq, hopp.degree_eq] at hlong
    refine ⟨_, conclude_eq_ok.mpr (.inr ⟨hdegree, hlong, roots', hroots', rfl⟩), ?_⟩
    rw [hopp.degree_eq]
    exact .reduced x _ hopp.coeff_eq hswap

theorem solveFor_swapped (h : solveFor s x l r = .ok a) :
    ∃ b, solveFor s x r l = .ok b ∧ a.Swapped b := by
  obtain ⟨p, hp, h'⟩ := bind_eq_ok.mp h
  obtain ⟨q, hq, -⟩ := bind_eq_ok.mp h'
  rw [solveFor_eq_conclude hp hq] at h
  rw [solveFor_eq_conclude hq hp]
  exact conclude_opposite (opposite_sub (nodup_ofExpr hp) (nodup_ofExpr hq)) h

/-- Without an unknown the two sides are compared alike in both orders. -/
theorem compare_swapped (h : compare s l r = .ok a) :
    ∃ b, compare s r l = .ok b ∧ a.Swapped b := by
  obtain ⟨v, hv, h⟩ := bind_eq_ok.mp h
  obtain ⟨w, hw, h⟩ := bind_eq_ok.mp h
  cases h
  refine ⟨if w.same v then .always else .never, by rw [compare, hv, hw]; rfl, ?_⟩
  rw [Value.same_comm w v]
  split
  · exact .always
  · exact .never

theorem mentions_of_firstVariable? {e : Expr} (h : e.firstVariable? = some x) :
    e.mentions x = true := by
  induction e with
  | var y =>
    unfold Expr.firstVariable? at h
    split at h
    · cases h
    · cases h
      simp [Expr.mentions]
  | unary op e ih => exact ih h
  | binary op l r ihl ihr =>
    unfold Expr.firstVariable? at h
    apply Bool.or_eq_true_iff.mpr
    split at h
    · rename_i y hy
      cases h
      exact .inl (ihl hy)
    · exact .inr (ihr h)
  | absent | number | imaginary | call | matrix | other => cases h

/-- At most one name of a variable occurs on the two sides, spelled in one way. -/
def OneVariable (l r : Expr) : Prop :=
  ∀ y z, (l.mentions y = true ∨ r.mentions y = true) → (l.mentions z = true ∨ r.mentions z = true) →
    y = z

/-- With one variable it does not matter which side is searched first. -/
theorem unknown?_comm (h : OneVariable l r) : unknown? l r = unknown? r l := by
  unfold unknown?
  cases hl : l.firstVariable? with
  | none => cases r.firstVariable? <;> rfl
  | some x =>
    cases hr : r.firstVariable? with
    | none => rfl
    | some y =>
      have hxy : x = y := h x y (.inl (mentions_of_firstVariable? hl))
        (.inr (mentions_of_firstVariable? hr))
      rw [hxy]

/-- Where at most one variable occurs once calls are written out, an equation that has an answer has
the same one with its sides swapped. -/
theorem solve_swapped (s : Scope) (left right l r : Expr) (a : Answer)
    (hl : expand s left = .ok l) (hr : expand s right = .ok r) (hone : OneVariable l r)
    (h : solve s left right = .ok a) : ∃ b, solve s right left = .ok b ∧ a.Swapped b := by
  simp only [solve, hl, hr, ok_bind, ← unknown?_comm hone] at h ⊢
  cases hu : unknown? l r with
  | none =>
    rw [hu] at h
    exact compare_swapped h
  | some x =>
    rw [hu] at h
    exact solveFor_swapped h

end Sides

def squarePlusSix : Scope :=
  .bind .empty "f" (.function
    ⟨"t", .binary .add (.binary .pow (.var "t") (.number "2")) (.number "6"), none⟩)

/-- `f(x) = 5 * x` has the solutions 3 and 2, and `5 * x = f(x)` has them in the other order. -/
theorem solve_swapped_squarePlusSix :
    let left := Expr.call "f" (.var "x")
    let right := Expr.binary .mul (.number "5") (.var "x")
    let inlined := Expr.binary .add (.binary .pow (.var "x") (.number "2")) (.number "6")
    let answer := Answer.reduced ⟨[(2, 1), (0, 6), (1, -5)]⟩ "x" 2 (.real 1 3 2)
    (expand squarePlusSix left = .ok inlined ∧ expand squarePlusSix right = .ok right ∧
      OneVariable inlined right ∧ solve squarePlusSix left right = .ok answer) ∧
    ∃ b, solve squarePlusSix right left = .ok b ∧ answer.Swapped b := by
  intro left right inlined answer
  have hleft : expand squarePlusSix left = .ok inlined := by with_unfolding_all rfl
  have hright : expand squarePlusSix right = .ok right := by with_unfolding_all rfl
  have hone : OneVariable inlined right := by
    intro y z hy hz
    simp [inlined, right, Expr.mentions] at hy hz
    rw [← hy, ← hz]
  have hanswer : solve squarePlusSix left right = .ok answer := by with_unfolding_all rfl
  exact ⟨⟨hleft, hright, hone, hanswer⟩,
    solve_swapped _ left right inlined right answer hleft hright hone hanswer⟩

end Equation
end Reckoner
