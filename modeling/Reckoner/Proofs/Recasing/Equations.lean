import Mathlib
import Reckoner.Proofs.Inlining
import Reckoner.Proofs.Recasing.Texts

namespace Reckoner
open Outcome
variable {s s' : Scope} {x x' y y' : String} {e e' l l' r r' : Expr}

theorem Value.Recased.same_eq {a a' b b' : Value} (ha : a.Recased a') (hb : b.Recased b') :
    a.same b = a'.same b' := by
  cases ha with
  | same =>
    cases hb with
    | same => rfl
    | function => cases a <;> rfl
  | function => cases hb <;> rfl

namespace Polynomial

theorem known_recased (hs : s.Recased s') (hy : Text.Recased y y') :
    Accord Eq (known s y) (known s' y') := by
  have hlookup := hs.lookup? hy
  simp only [known]
  generalize s.lookup? y = o, s'.lookup? y' = o' at hlookup ⊢
  cases hlookup with
  | none => exact .error trivial
  | @some v v' hv =>
    cases hv with
    | function => exact .error trivial
    | same =>
      cases v with
      | rational q => exact .ok rfl
      | plain d =>
        simp only [Value.number?]
        cases d.number? with
        | none => exact .error trivial
        | some n => exact Accord.refl (fun _ => rfl) _
      | complex | matrix | function | builtin => exact .error trivial

/-- The same variables stand for the unknown, so there is one polynomial. -/
theorem ofExpr_recased (hs : s.Recased s') (he : Expr.SpelledAlike x x' e e') :
    Accord Eq (ofExpr s x e) (ofExpr s' x' e') := by
  induction he using Expr.Alike.induct with
  | absent => exact .ok rfl
  | number => exact Accord.refl (fun _ => rfl) _
  | @var y y' h =>
    by_cases hy : y = x
    · rw [ofExpr, if_pos hy, ofExpr, if_pos (h.2.mp hy)]
      exact .ok rfl
    · rw [ofExpr, if_neg hy, ofExpr, if_neg fun hy' => hy (h.2.mpr hy')]
      exact (known_recased hs h.1).map fun _ _ hq => congrArg constant hq
  | unary op _ ih =>
    refine ih.bind fun p _ hp => ?_
    subst hp
    exact Accord.refl (fun _ => rfl) _
  | binary op _ _ ihl ihr =>
    refine ihl.bind fun p _ hp => ihr.bind fun q _ hq => ?_
    subst hp hq
    exact Accord.refl (fun _ => rfl) _
  | imaginary | call | matrix => exact .error trivial
  | other => exact Accord.refl (fun _ => rfl) _

theorem termText_recased (h : Text.Recased x x') (k : Int) (c : Rat) :
    Text.Recased (termText x k c) (termText x' k c) := by
  have hpower : Text.Recased (if k = 1 then x else x ++ "^" ++ toString k)
      (if k = 1 then x' else x' ++ "^" ++ toString k) := by
    split
    · exact h
    · exact (h.append rfl).append rfl
  simp only [termText]
  split
  · rfl
  · split
    · exact hpower
    · exact .append rfl hpower

theorem text_recased (h : Text.Recased x x') (p : Polynomial) :
    Text.Recased (p.text x) (p.text x') := by
  have hterm (first : Bool) (t : Int × Rat) :
      Text.Recased (signedText first x t.1 t.2) (signedText first x' t.1 t.2) :=
    .append rfl (termText_recased h t.1 t.2.abs)
  simp only [text]
  split
  · rfl
  · refine Text.Recased.intercalate (.cons (hterm true _) ?_) " "
    rw [List.forall₂_map_left_iff, List.forall₂_map_right_iff]
    exact List.forall₂_same.mpr fun t _ => hterm false t

end Polynomial

namespace Equation

/-- Sides of which the same variables are spelled as the unknown, `x` in one equation and `x'` in
the other, when the calls in them are written out. -/
structure SpelledAlike (s s' : Scope) (l r l' r' : Expr) : Prop where
  left : s.SpelledAlike s' l
  right : s.SpelledAlike s' r
  unknown {a b a' b' : Expr} {x x' : String} (ha : expand s l = .ok a) (hb : expand s r = .ok b)
    (ha' : expand s' l' = .ok a') (hb' : expand s' r' = .ok b') (hx : unknown? a b = some x)
    (hx' : unknown? a' b' = some x') : Expr.SpelledAlike x x' a a' ∧ Expr.SpelledAlike x x' b b'

theorem expand_recased (hs : s.Recased s') (he : e.Recased e') (h : s.SpelledAlike s' e) :
    Accord Expr.Recased (expand s e) (expand s' e') := by
  rw [expand, Inline.expandDeep_eq, expand, Inline.expandDeep_eq]
  exact h.inline hs he maxDepth

/-- The unknown is the first variable on the left, or else on the right. -/
theorem unknown?_recased (hl : l.Recased l') (hr : r.Recased r') :
    Option.Rel Text.Recased (unknown? l r) (unknown? l' r') := by
  have hfirst := hl.firstVariable?_rel fun h => h.eq_empty_iff
  simp only [unknown?]
  generalize l.firstVariable? = o, l'.firstVariable? = o' at hfirst ⊢
  cases hfirst with
  | some h => exact .some h
  | none => exact hr.firstVariable?_rel fun h => h.eq_empty_iff

def Answer.Recased (a a' : Answer) : Prop :=
  Text.Recased a.text a'.text

theorem solveFor_recased (hs : s.Recased s') (hx : Text.Recased x x')
    (hl : Expr.SpelledAlike x x' l l') (hr : Expr.SpelledAlike x x' r r') :
    Accord Answer.Recased (solveFor s x l r) (solveFor s' x' l' r') := by
  refine (Polynomial.ofExpr_recased hs hl).bind fun p _ hp =>
    (Polynomial.ofExpr_recased hs hr).bind fun q _ hq => ?_
  subst hp hq
  dsimp only
  split
  · exact .ok (Text.Recased.refl _)
  · split
    · exact .error trivial
    · refine Accord.bind_self _ fun roots => .ok ?_
      have hform := Polynomial.text_recased hx (p.sub q)
      exact (((hform.between _ _).append rfl).append rfl).append rfl

theorem compare_recased (hs : s.Recased s') (hl : l.Recased l') (hr : r.Recased r') :
    Accord Answer.Recased (compare s l r) (compare s' l' r') := by
  refine (hs.eval hl).bind fun a a' ha => (hs.eval hr).bind fun b b' hb => .ok ?_
  rw [ha.same_eq hb]
  exact Text.Recased.refl _

/-- Equations that differ in case only have one answer, if the same variables are spelled as the
unknown when the calls in them are written out. -/
theorem solve_recased (hs : s.Recased s') (hl : l.Recased l') (hr : r.Recased r')
    (hspelled : SpelledAlike s s' l r l' r') :
    Accord Answer.Recased (solve s l r) (solve s' l' r') := by
  have hleft := expand_recased hs hl hspelled.left
  have hright := expand_recased hs hr hspelled.right
  simp only [solve]
  generalize ha : expand s l = o, ha' : expand s' l' = o' at hleft ⊢
  cases hleft with
  | error => exact .error trivial
  | @ok a a' hl =>
    generalize hb : expand s r = o, hb' : expand s' r' = o' at hright ⊢
    cases hright with
    | error => exact .error trivial
    | @ok b b' hr =>
      have hunknown := unknown?_recased hl hr
      simp only [ok_bind]
      generalize hx : unknown? a b = o, hx' : unknown? a' b' = o' at hunknown ⊢
      cases hunknown with
      | none => exact compare_recased hs hl hr
      | some h =>
        obtain ⟨hleft, hright⟩ := hspelled.unknown ha hb ha' hb' hx hx'
        exact solveFor_recased hs h hleft hright

end Equation
end Reckoner
