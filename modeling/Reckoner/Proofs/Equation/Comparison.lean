import Mathlib
import Reckoner.Equation
import Reckoner.Proofs.Associativity

namespace Reckoner
open Outcome Eval Inline

namespace Expr

def isPlainNumber : Expr → Bool
  | .number _ | .imaginary => true
  | .unary _ e => isPlainNumber e
  | .binary _ l r => isPlainNumber l && isPlainNumber r
  | _ => false

/-- Whether the imaginary unit occurs outside of calls and matrices. -/
def hasUnit : Expr → Bool
  | .imaginary => true
  | .unary _ e => hasUnit e
  | .binary _ l r => hasUnit l || hasUnit r
  | _ => false

/-- Without variables there is no first one. -/
theorem firstVariable?_eq_none {e : Expr} (h : e.hasVariables = false) :
    e.firstVariable? = none := by
  induction e with
  | var => cases h
  | unary op e ih => exact ih h
  | binary op l r ihl ihr =>
    obtain ⟨hl, hr⟩ := Bool.or_eq_false_iff.mp h
    rw [firstVariable?, ihl hl, ihr hr]
  | absent | number | imaginary | call | matrix | other => rfl

end Expr

namespace Value
variable {p q : Bool} {w z : GaussRat} {a b : Value}

def isKind (rational : Bool) : Value → Bool
  | .rational _ => rational
  | .complex _ => !rational
  | _ => false

theorem IsGauss.isKind_iff {r : Bool} (h : IsGauss p w a) : a.isKind r = true ↔ p = r := by
  cases h <;> cases r <;> simp [isKind]

/-- A sign gives a rational for two rationals only. -/
theorem combine_isKind (op : BinOp) (ha : a.isKind p = true) (hb : b.isKind q = true) :
    Gives (fun v => v.isKind (p && q) = true) (combine op a b) := by
  have hr (x : Rat) : (rational x).isKind true = true := rfl
  have hc (x : GaussRat) : (complex x).isKind false = true := rfl
  cases a with
  | matrix | function | builtin | plain => cases ha
  | rational | complex =>
    cases b with
    | matrix | function | builtin | plain => cases hb
    | rational | complex =>
      simp only [isKind, Bool.not_eq_true'] at ha hb
      subst ha hb
      cases op with
      | other s =>
        rw [combine]
        split <;> simp [starStar]
      | _ => simp [combine, add, sub, star, mul, div, remainder, starStar, power, number?, hr, hc]

/-- A minus keeps the kind of a number. -/
theorem negate_isKind (op : UnOp) (ha : a.isKind p = true) :
    Gives (fun v => v.isKind p = true) (negate op a) := by
  cases op with
  | other => exact gives_error _
  | neg =>
    cases a with
    | matrix | function | builtin | plain => cases ha
    | rational | complex => exact gives_ok.mpr ha

/-- Numbers are the same to the program if they are of one kind and have the same parts. -/
theorem same_iff (ha : IsGauss p w a) (hb : IsGauss q z b) :
    a.same b = true ↔ w = z ∧ p = q := by
  cases ha with
  | rational hre him =>
    cases hb with
    | rational hre' him' =>
      subst hre hre'
      have hparts : w = z ↔ w.re = z.re :=
        ⟨congrArg _, fun h => GaussRat.ext h (him.trans him'.symm)⟩
      simp [same, hparts]
    | complex => simp [same]
  | complex hre him =>
    obtain rfl := GaussRat.ext hre him
    cases hb with
    | rational => simp [same]
    | complex hre' him' =>
      obtain rfl := GaussRat.ext hre' him'
      simp [same]

end Value

namespace Expr

/-- The kind of a plain number shows in its text. -/
theorem evalDeep_isKind {e : Expr} (he : e.isPlainNumber = true) (n : Nat) (s : Scope) :
    Gives (fun v => v.isKind (!e.hasUnit) = true) (evalDeep n s e) := by
  cases n with
  | zero => exact gives_error _
  | succ n =>
    rw [evalDeep]
    induction e with
    | number t => simp [evalWith, hasUnit, Value.isKind]
    | imaginary => simp [evalWith, hasUnit, Value.isKind]
    | unary op e ih =>
      intro v hv
      obtain ⟨a, ha, hv⟩ := bind_eq_ok.mp hv
      exact Value.negate_isKind op (ih he a ha) v hv
    | binary op l r ihl ihr =>
      obtain ⟨hl, hr⟩ := Bool.and_eq_true_iff.mp he
      intro v hv
      obtain ⟨a, ha, hv⟩ := bind_eq_ok.mp hv
      obtain ⟨b, hb, hv⟩ := bind_eq_ok.mp hv
      rw [hasUnit, Bool.not_or]
      exact Value.combine_isKind op (ihl hl a ha) (ihr hr b hb) v hv
    | absent | var | call | matrix | other => cases he

end Expr

namespace Equation

/-- A side of an equation, with its calls written out in `e'`: no variable is left in it and its
value is the number with the parts `z`, a rational or a complex number. -/
structure Closed (s : Scope) (e e' : Expr) (rational : Bool) (z : GaussRat) : Prop where
  expands : expand s e = .ok e'
  closed : e'.hasVariables = false
  value : ∃ v, s.eval e' = .ok v ∧ v.IsGauss rational z

namespace Closed
variable {s : Scope} {e e' : Expr} {p : Bool} {z : GaussRat}

/-- So the kind of a side without calls is known before it is evaluated. -/
theorem kind_eq (h : Closed s e e' p z) (he : e'.isPlainNumber = true) : p = !e'.hasUnit := by
  obtain ⟨v, hv, hz⟩ := h.value
  exact hz.isKind_iff.mp (Expr.evalDeep_isKind he _ s v hv)

/-- The side itself has the value that it has with its calls written out, if the bodies of functions
mean the same there. -/
theorem eval_eq (h : Closed s e e' p z) (hc : CallsFree (s.Reaches e))
    (ha : AnglesKept (s.Reaches e) s) {v : Value} (hv : s.eval e = .ok v)
    (hn : v.isNumber = true) : v.IsGauss p z := by
  obtain ⟨w, hw, hz⟩ := h.value
  obtain ⟨d, hd, hstands⟩ :=
    stands_of_evalDeep ⟨s.closed_reaches e, hc, ha⟩ (fun g f hg hf => .called hg hf) hv
  have hexpand := h.expands
  rw [expand, expandDeep_eq] at hexpand
  have hde : d = e' := by
    rcases hd.inlineDeep_eq maxDepth with hd | hd <;> rw [hexpand] at hd <;> cases hd
    rfl
  subst hde
  obtain ⟨u, hu, hbare⟩ := hstands (.inl h.closed)
  have huw : u = w := Except.ok.inj (((evalDeep_cut (by decide) s d).eq_ok hu).symm.trans hw)
  have hvw : w = v := by
    rw [← huw]
    apply eq_of_bare_eq _ hbare
    cases v <;> first | rfl | cases hn
  exact hvw ▸ hz

end Closed

/-- Values are compared together with their kinds: a rational and a complex number are never the
same, even if the imaginary part is zero. Equal numbers make an equation that always holds if they
are of one kind, and numbers that are not equal make one that has no solution. -/
theorem solve_closed (s : Scope) (left right l r : Expr) (p q : Bool) (w z : GaussRat)
    (hl : Closed s left l p w) (hr : Closed s right r q z) :
    (∃ a, solve s left right = .ok a ∧
      (a.text = "The equation is always true" ↔ w = z ∧ p = q) ∧
      (a.text = "The equation has no solution" ↔ ¬ (w = z ∧ p = q))) ∧
    (l.isPlainNumber = true → r.isPlainNumber = true → (p = q ↔ l.hasUnit = r.hasUnit)) ∧
    (CallsFree (s.Reaches left) → AnglesKept (s.Reaches left) s → ∀ v, s.eval left = .ok v →
      v.isNumber = true → v.IsGauss p w) ∧
    (CallsFree (s.Reaches right) → AnglesKept (s.Reaches right) s → ∀ v, s.eval right = .ok v →
      v.isNumber = true → v.IsGauss q z) := by
  refine ⟨?_, fun hpl hpr => ?_, fun hc ha v => hl.eval_eq hc ha, fun hc ha v => hr.eval_eq hc ha⟩
  · obtain ⟨a, ha, hw⟩ := hl.value
    obtain ⟨b, hb, hz⟩ := hr.value
    have hsolve : solve s left right = .ok (if a.same b then .always else .never) := by
      simp [solve, hl.expands, hr.expands, unknown?, Expr.firstVariable?_eq_none hl.closed,
        Expr.firstVariable?_eq_none hr.closed, compare, ha, hb]
    refine ⟨_, hsolve, ?_⟩
    rw [← Value.same_iff hw hz]
    cases a.same b <;> decide
  · rw [hl.kind_eq hpl, hr.kind_eq hpr]
    simp

def turning : Scope where
  bindings := [("f", .function ⟨"t", .binary .mul (.var "t") .imaginary, some "f"⟩)]
  mode := .radians
  home := .session

/-- Both sides of `f(i) = -1` are -1, but the left one as a complex number. -/
theorem solve_closed_turning :
    let left := Expr.call "f" .imaginary
    let l := Expr.binary .mul .imaginary .imaginary
    let minusOne := Expr.unary .neg (.number "1")
    (Closed turning left l false ⟨-1, 0⟩ ∧ Closed turning minusOne minusOne true ⟨-1, 0⟩) ∧
    ∃ a, solve turning left minusOne = .ok a ∧ a.text = "The equation has no solution" := by
  intro left l minusOne
  have hl : Closed turning left l false ⟨-1, 0⟩ :=
    ⟨by with_unfolding_all rfl, rfl, _, by with_unfolding_all rfl, .complex rfl rfl⟩
  have hr : Closed turning minusOne minusOne true ⟨-1, 0⟩ :=
    ⟨by with_unfolding_all rfl, rfl, _, by with_unfolding_all rfl, .rational rfl rfl⟩
  obtain ⟨a, ha, -, hnever⟩ := (solve_closed turning left minusOne l minusOne _ _ _ _ hl hr).1
  exact ⟨⟨hl, hr⟩, a, ha, hnever.mpr (by simp)⟩

end Equation
end Reckoner
