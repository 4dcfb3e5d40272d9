import Mathlib.Data.List.Forall2
import Reckoner.Proofs.Expr

namespace Reckoner.Expr

/-- Expressions of one form, with names of variables that `V` relates and names of calls that `C`
relates. -/
inductive Alike (V C : String → String → Prop) : Expr → Expr → Prop where
  | absent : Alike V C .absent .absent
  | number (t : String) : Alike V C (.number t) (.number t)
  | var {x x' : String} (h : V x x') : Alike V C (.var x) (.var x')
  | imaginary : Alike V C .imaginary .imaginary
  | unary (op : UnOp) {e e' : Expr} (h : Alike V C e e') : Alike V C (.unary op e) (.unary op e')
  | binary (op : BinOp) {l l' r r' : Expr} (hl : Alike V C l l') (hr : Alike V C r r') :
      Alike V C (.binary op l r) (.binary op l' r')
  | call {f f' : String} {e e' : Expr} (hf : C f f') (h : Alike V C e e') :
      Alike V C (.call f e) (.call f' e')
  | matrix {rows rows' : List (List Expr)}
      (h : List.Forall₂ (List.Forall₂ (Alike V C)) rows rows') :
      Alike V C (.matrix rows) (.matrix rows')
  | other (d : Datum) : Alike V C (.other d) (.other d)

namespace Alike
variable {V C V' C' : String → String → Prop} {a a' e e' : Expr} {x x' : String}

@[elab_as_elim, induction_eliminator]
theorem induct {P : ∀ e e' : Expr, Alike V C e e' → Prop}
    (absent : P _ _ .absent) (number : ∀ t, P _ _ (.number t))
    (var : ∀ {x x'} (h : V x x'), P _ _ (.var h)) (imaginary : P _ _ .imaginary)
    (unary : ∀ op {e e'} (h : Alike V C e e'), P _ _ h → P _ _ (.unary op h))
    (binary : ∀ op {l l' r r'} (hl : Alike V C l l') (hr : Alike V C r r'),
      P _ _ hl → P _ _ hr → P _ _ (.binary op hl hr))
    (call : ∀ {f f' e e'} (hf : C f f') (h : Alike V C e e'), P _ _ h → P _ _ (.call hf h))
    (matrix : ∀ {rows rows'} (h : List.Forall₂ (List.Forall₂ (Alike V C)) rows rows'),
      List.Forall₂ (List.Forall₂ (fun e e' => ∃ h, P e e' h)) rows rows' → P _ _ (.matrix h))
    (other : ∀ d, P _ _ (.other d)) {e e' : Expr} (h : Alike V C e e') : P e e' h := by
  refine @Alike.rec V C P
    (fun rows rows' _ => List.Forall₂ (List.Forall₂ (fun e e' => ∃ h, P e e' h)) rows rows')
    (fun r r' _ => List.Forall₂ (fun e e' => ∃ h, P e e' h) r r')
    absent number var imaginary unary binary call matrix other .nil ?_ .nil ?_ e e' h
  · intro r r' rows rows' _ _ hr hrows
    exact .cons hr hrows
  · intro e e' r r' he _ hP hr
    exact .cons ⟨he, hP⟩ hr

/-- What the induction gives for the rows of matrices. -/
theorem rows {P : Expr → Expr → Prop} {rows rows' : List (List Expr)}
    (h : List.Forall₂ (List.Forall₂ fun e e' => ∃ _ : Alike V C e e', P e e') rows rows') :
    List.Forall₂ (List.Forall₂ P) rows rows' :=
  h.imp fun _ _ hr => hr.imp fun _ _ he => he.snd

theorem mono (h : Alike V C e e') (hV : ∀ {y y'}, V y y' → V' y y')
    (hC : ∀ {g g'}, C g g' → C' g g') : Alike V' C' e e' := by
  induction h with
  | absent => exact .absent
  | number t => exact .number t
  | var h => exact .var (hV h)
  | imaginary => exact .imaginary
  | unary op _ ih => exact .unary op ih
  | binary op _ _ ihl ihr => exact .binary op ihl ihr
  | call hf _ ih => exact .call (hC hf) ih
  | matrix _ ih => exact .matrix (rows ih)
  | other d => exact .other d

/-- What holds of the names of calls in one of two alike expressions. -/
theorem and_calls {D : String → Prop} (h : Alike V C e e') (hD : ∀ g, e.calls g = true → D g) :
    Alike V (fun g g' => C g g' ∧ D g) e e' := by
  induction h with
  | absent => exact .absent
  | number t => exact .number t
  | var h => exact .var h
  | imaginary => exact .imaginary
  | unary op _ ih => exact .unary op (ih hD)
  | binary op _ _ ihl ihr =>
    exact .binary op (ihl fun g hg => hD g (Part.calls (.left op _ _) hg))
      (ihr fun g hg => hD g (Part.calls (.right op _ _) hg))
  | @call f f' e e' hf _ ih =>
    exact .call ⟨hf, hD f (by simp [calls])⟩ (ih fun g hg => hD g (Part.calls (.arg f e) hg))
  | @matrix rows rows' _ ih =>
    have hpart : ∀ r ∈ rows, ∀ e ∈ r, ∀ g, e.calls g = true → D g :=
      fun r hr e he g hg => hD g (Part.calls (.element hr he) hg)
    refine .matrix (((List.forall₂_and_left _ _).mpr ⟨hpart, ih⟩).imp fun r r' hr => ?_)
    exact ((List.forall₂_and_left _ _).mpr hr).imp fun _ _ he => he.2.snd he.1
  | other d => exact .other d

theorem refl (hV : ∀ y, V y y) (hC : ∀ g, C g g) (e : Expr) : Alike V C e e := by
  induction e with
  | absent => exact .absent
  | number t => exact .number t
  | var x => exact .var (hV x)
  | imaginary => exact .imaginary
  | unary op e ih => exact .unary op ih
  | binary op l r ihl ihr => exact .binary op ihl ihr
  | call f e ih => exact .call (hC f) ih
  | matrix rows ih =>
    exact .matrix (List.forall₂_same.mpr fun r hr => List.forall₂_same.mpr (ih r hr))
  | other d => exact .other d

/-- Expressions whose names are equal are equal. -/
theorem eq_of_eq (h : Alike Eq Eq e e') : e = e' := by
  induction h with
  | absent | number | imaginary | other => rfl
  | var h => rw [h]
  | unary op _ ih => rw [ih]
  | binary op _ _ ihl ihr => rw [ihl, ihr]
  | call hf _ ih => rw [hf, ih]
  | matrix _ ih =>
    have hrows : List.Forall₂ (List.Forall₂ Eq) _ _ := rows ih
    rw [List.forall₂_eq_eq_eq, List.forall₂_eq_eq_eq] at hrows
    rw [hrows]

/-- Tests that answer alike element by element answer alike for some element. -/
theorem any_eq {α : Type*} {p q : α → Bool} {l l' : List α}
    (h : List.Forall₂ (fun a b => p a = q b) l l') : l.any p = l'.any q := by
  induction h with
  | nil => rfl
  | cons hab _ ih => rw [List.any_cons, List.any_cons, hab, ih]

/-- A variable occurs in both or in neither, if the same variables are spelled so in both. -/
theorem mentions_eq (h : Alike V C e e') (hV : ∀ {y y'}, V y y' → (y = x ↔ y' = x')) :
    e.mentions x = e'.mentions x' := by
  induction h with
  | absent | number | imaginary | other => rfl
  | var h => simp only [mentions, beq_eq_decide, hV h]
  | unary op _ ih => exact ih
  | binary op _ _ ihl ihr => rw [mentions, ihl, ihr, mentions]
  | call hf _ ih => exact ih
  | matrix _ ih =>
    rw [mentions, mentionsRows_eq, mentions, mentionsRows_eq]
    exact any_eq ((rows ih).imp fun _ _ hr => any_eq hr)

theorem hasVariables_eq (h : Alike V C e e') : e.hasVariables = e'.hasVariables := by
  induction h with
  | absent | number | imaginary | other | var => rfl
  | unary op _ ih => exact ih
  | binary op _ _ ihl ihr => rw [hasVariables, ihl, ihr, hasVariables]
  | call hf _ ih => exact ih
  | matrix _ ih =>
    rw [hasVariables, hasVariablesRows_eq, hasVariables, hasVariablesRows_eq]
    exact any_eq ((rows ih).imp fun _ _ hr => any_eq hr)

/-- Alike expressions in the place of variables that stand at the same places. -/
theorem subst (h : Alike V C e e') (ha : Alike V' C a a')
    (hV : ∀ {y y'}, V y y' → V' y y' ∧ (y = x ↔ y' = x')) :
    Alike V' C (Expr.subst x a e) (Expr.subst x' a' e') := by
  induction h with
  | absent => exact .absent
  | number t => exact .number t
  | imaginary => exact .imaginary
  | other d => exact .other d
  | @var y y' h =>
    by_cases hy : y = x
    · rw [Expr.subst, if_pos hy, Expr.subst, if_pos ((hV h).2.mp hy)]
      exact ha
    · rw [Expr.subst, if_neg hy, Expr.subst, if_neg fun hy' => hy ((hV h).2.mpr hy')]
      exact .var (hV h).1
  | unary op _ ih => exact .unary op ih
  | binary op _ _ ihl ihr => exact .binary op ihl ihr
  | call hf _ ih => exact .call hf ih
  | matrix _ ih =>
    rw [Expr.subst, substRows_eq, Expr.subst, substRows_eq]
    refine .matrix ?_
    rw [List.forall₂_map_left_iff, List.forall₂_map_right_iff]
    refine (rows ih).imp fun _ _ hr => ?_
    rw [List.forall₂_map_left_iff, List.forall₂_map_right_iff]
    exact hr

/-- The first variables stand at the same place. -/
theorem firstVariable?_rel (h : Alike V C e e') (hV : ∀ {y y'}, V y y' → (y = "" ↔ y' = "")) :
    Option.Rel V e.firstVariable? e'.firstVariable? := by
  induction h with
  | absent | number | imaginary | other => exact .none
  | @var y y' h =>
    rw [firstVariable?, firstVariable?]
    by_cases hy : y = ""
    · rw [if_pos hy, if_pos ((hV h).mp hy)]
      exact .none
    · rw [if_neg hy, if_neg fun hy' => hy ((hV h).mpr hy')]
      exact .some h
  | unary op _ ih => exact ih
  | @binary op l l' r r' _ _ ihl ihr =>
    rw [firstVariable?, firstVariable?]
    generalize l.firstVariable? = o, l'.firstVariable? = o' at ihl ⊢
    cases ihl with
    | none => exact ihr
    | some h => exact .some h
  | call | matrix => exact .none

end Alike
end Reckoner.Expr
