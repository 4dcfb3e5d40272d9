import Mathlib
import Reckoner.Inline
import Reckoner.Proofs.Recasing.Letters
import Reckoner.Proofs.Alike
import Reckoner.Proofs.Renaming
import Reckoner.Proofs.Scope

namespace Reckoner
open Outcome Eval

/-- Variables that differ in case only, and are spelled as `x` in one expression if they are
spelled as `x'` in the other. -/
def SpelledAs (x x' y y' : String) : Prop :=
  Text.Recased y y' ∧ (y = x ↔ y' = x')

namespace Expr

abbrev Recased (e e' : Expr) : Prop :=
  e.Alike Text.Recased Text.Recased e'

/-- Expressions that differ in case only, with the same variables spelled as `x` in one of them
and as `x'` in the other. -/
abbrev SpelledAlike (x x' : String) (e e' : Expr) : Prop :=
  e.Alike (SpelledAs x x') Text.Recased e'

theorem SpelledAlike.recased {x x' : String} {e e' : Expr} (h : SpelledAlike x x' e e') :
    Recased e e' :=
  h.mono (fun h => h.1) (fun h => h)

end Expr

structure UserFunction.Recased (f f' : UserFunction) : Prop where
  param : Text.Recased f.param f'.param
  body : f.body.Recased f'.body
  name : Option.Rel Text.Recased f.name f'.name

theorem UserFunction.Recased.refl (f : UserFunction) : f.Recased f where
  param := rfl
  body := Expr.Alike.refl (V := Text.Recased) (C := Text.Recased) (fun _ => rfl) (fun _ => rfl) _
  name := by cases f.name <;> constructor; rfl

inductive Value.Recased : Value → Value → Prop where
  | same (v : Value) : Recased v v
  | function {f f' : UserFunction} (h : f.Recased f') : Recased (.function f) (.function f')

structure Scope.Recased (s s' : Scope) : Prop where
  bindings : List.Forall₂ (fun b b' => b'.1 = b.1 ∧ b.2.Recased b'.2) s.bindings s'.bindings
  mode : s'.mode = s.mode
  home : s'.home = s.home

namespace Value.Recased
variable {a a' b b' v v' : Value}

theorem outline_eq (h : v.Recased v') : v.outline = v'.outline := by
  cases h <;> rfl

theorem isAbsent_eq (h : v.Recased v') : v.isAbsent = v'.isAbsent := by
  cases h <;> rfl

/-- Values that differ in case are functions, which are no operands. -/
theorem combine_eq (ha : a.Recased a') (hb : b.Recased b') (op : BinOp) :
    combine op a b = combine op a' b' := by
  rw [← combine_outline op a b, ha.outline_eq, hb.outline_eq, combine_outline]

theorem negate_eq (h : v.Recased v') (op : UnOp) : negate op v = negate op v' := by
  rw [← negate_outline op v, h.outline_eq, negate_outline]

theorem apply_eq (h : v.Recased v') (f : Builtin) (mode : AngleMode) :
    f.apply mode v = f.apply mode v' := by
  rw [← Builtin.apply_outline f mode v, h.outline_eq, Builtin.apply_outline]

theorem elements_eq (vs ws : List Value) (h : List.Forall₂ Recased vs ws) :
    vs.mapM element = ws.mapM element := by
  induction h with
  | nil => rfl
  | cons hvw _ ih =>
    rw [List.mapM_cons, List.mapM_cons, ih, ← element_outline, hvw.outline_eq, element_outline]

end Value.Recased

namespace Scope.Recased
variable {s s' : Scope} {x x' : String} {v v' : Value}

theorem refl (s : Scope) : s.Recased s :=
  ⟨List.forall₂_same.mpr fun b _ => ⟨rfl, .same b.2⟩, rfl, rfl⟩

theorem modeOf_eq (h : s.Recased s') (home : Home) : s.modeOf home = s'.modeOf home := by
  cases home with
  | session => exact h.mode.symm
  | call => rfl

/-- A name takes the same place in both lists, whether it is new or bound again. -/
theorem set_bindings {bs bs' : List (String × Value)}
    (h : List.Forall₂ (fun b b' => b'.1 = b.1 ∧ b.2.Recased b'.2) bs bs') (hv : v.Recased v')
    (k : String) :
    List.Forall₂ (fun b b' => b'.1 = b.1 ∧ b.2.Recased b'.2) (set k v bs) (set k v' bs') := by
  induction h with
  | nil => exact .cons ⟨rfl, hv⟩ .nil
  | @cons b b' bs bs' hb hbs ih =>
    obtain ⟨key, w⟩ := b
    obtain ⟨key', w'⟩ := b'
    obtain ⟨rfl, hw⟩ := hb
    simp only [set]
    split
    · exact .cons ⟨rfl, hv⟩ hbs
    · exact .cons ⟨rfl, hw⟩ ih

theorem bind (h : s.Recased s') (hx : Text.Recased x x') (hv : v.Recased v') :
    (s.bind x v).Recased (s'.bind x' v') := by
  refine ⟨?_, h.mode, h.home⟩
  simp only [Scope.bind, ← hx.lower_eq]
  exact set_bindings h.bindings hv _

theorem enter (h : s.Recased s') (hx : Text.Recased x x') (hv : v.Recased v') :
    (s.enter x v).Recased (s'.enter x' v') :=
  ⟨(h.bind hx hv).bindings, h.mode, rfl⟩

/-- Names are looked up without regard to case. -/
theorem lookup? (h : s.Recased s') (hx : Text.Recased x x') :
    Option.Rel Value.Recased (s.lookup? x) (s'.lookup? x') := by
  have hlookup := lookup_forall₂ h.bindings (fun _ _ _ hv => hv) (Text.lower x)
  simp only [Scope.lookup?, ← hx.lower_eq, h.home]
  generalize s.bindings.lookup (Text.lower x) = o,
    s'.bindings.lookup (Text.lower x) = o' at hlookup ⊢
  cases hlookup with
  | none =>
    cases Builtin.ofName? (Text.lower x) with
    | none => exact .none
    | some b => exact .some (.same _)
  | some hv =>
    simp only [hv.isAbsent_eq]
    split
    · exact .none
    · exact .some hv

theorem function? (h : s.Recased s') (hx : Text.Recased x x') :
    Option.Rel UserFunction.Recased (s.function? x) (s'.function? x') := by
  have hlookup := h.lookup? hx
  simp only [Scope.function?]
  generalize s.lookup? x = o, s'.lookup? x' = o' at hlookup ⊢
  cases hlookup with
  | none => exact .none
  | @some v v' hv =>
    cases hv with
    | function hf => exact .some hf
    | same =>
      cases v with
      | function f => exact .some (.refl f)
      | rational | complex | matrix | builtin | plain => exact .none

end Scope.Recased

section Eval
variable {run run' : Scope → Expr → Except Error Value} {s s' : Scope} {e e' : Expr}

/-- A call enters a body that differs in case only, with the parameter bound in small letters. -/
theorem applyNamed_recased {g g' : String} {a a' : Value} (hs : s.Recased s')
    (hg : Text.Recased g g') (ha : a.Recased a')
    (hrun : ∀ {s s' e e'}, s.Recased s' → e.Recased e' →
      Accord Value.Recased (run s e) (run' s' e')) :
    Accord Value.Recased (applyNamed run s g a) (applyNamed run' s' g' a') := by
  have hlookup := hs.lookup? hg
  simp only [applyNamed]
  generalize s.lookup? g = o, s'.lookup? g' = o' at hlookup ⊢
  cases hlookup with
  | none => exact .error trivial
  | @some v v' hv =>
    cases hv with
    | function hf => exact hrun (hs.enter hf.param ha) hf.body
    | same =>
      cases v with
      | function f => exact hrun (hs.enter rfl ha) (UserFunction.Recased.refl f).body
      | builtin b home =>
        simp only [hs.modeOf_eq, ha.apply_eq]
        exact Accord.refl .same _
      | rational | complex | matrix | plain => exact .error trivial

/-- Recased expressions come to recased values. -/
theorem evalDeep_recased (n : Nat) (hs : s.Recased s') (he : e.Recased e') :
    Accord Value.Recased (evalDeep n s e) (evalDeep n s' e') := by
  -- Outside, on the depth of calls; inside, on the two expressions, whose parts are as deep.
  induction n generalizing s s' e e' with
  | zero => exact .error trivial
  | succ n ihn =>
    induction he using Expr.Alike.induct with
    | absent => exact .ok (.same _)
    | number t => exact Accord.refl .same _
    | var h =>
      have hlookup := hs.lookup? h
      simp only [evalDeep, evalWith]
      generalize s.lookup? _ = o, s'.lookup? _ = o' at hlookup ⊢
      cases hlookup with
      | none => exact .error trivial
      | some hv => exact .ok hv
    | imaginary => exact .ok (.same _)
    | unary op _ ih =>
      refine ih.bind fun a a' ha => ?_
      rw [ha.negate_eq]
      exact Accord.refl .same _
    | binary op _ _ ihl ihr =>
      refine ihl.bind fun a a' ha => ihr.bind fun b b' hb => ?_
      rw [ha.combine_eq hb]
      exact Accord.refl .same _
    | call hg _ ih => exact ih.bind fun a a' ha => applyNamed_recased hs hg ha ihn
    | matrix _ ih =>
      have hrows := Expr.Alike.rows ih
      refine (Simulation.evalRows_matches (fun _ => trivial) Value.Recased.elements_eq hrows).bind
        fun qs _ hq => ?_
      subst hq
      exact Accord.refl .same _
    | other d => exact .error trivial

theorem Scope.Recased.eval (hs : s.Recased s') (he : e.Recased e') :
    Accord Value.Recased (s.eval e) (s'.eval e') :=
  evalDeep_recased maxDepth hs he

end Eval

section Inline
open Inline
variable {run run' : Expr → Except Error Expr} {s s' : Scope} {e e' : Expr}

theorem inlineRow_recased {r r' : List Expr}
    (h : List.Forall₂ (fun e e' =>
      Accord Expr.Recased (inlineWith run s e) (inlineWith run' s' e')) r r') :
    Accord (List.Forall₂ Expr.Recased) (inlineRow run s r) (inlineRow run' s' r') := by
  induction h with
  | nil => exact .ok .nil
  | cons he _ ih => exact he.bind fun _ _ ha => ih.bind fun _ _ has => .ok (.cons ha has)

theorem inlineRows_recased {rows rows' : List (List Expr)}
    (h : List.Forall₂ (List.Forall₂ fun e e' =>
      Accord Expr.Recased (inlineWith run s e) (inlineWith run' s' e')) rows rows') :
    Accord (List.Forall₂ (List.Forall₂ Expr.Recased)) (inlineRows run s rows)
      (inlineRows run' s' rows') := by
  induction h with
  | nil => exact .ok .nil
  | cons hr _ ih =>
    exact (inlineRow_recased hr).bind fun _ _ ha => ih.bind fun _ _ has => .ok (.cons ha has)

/-- Functions that `e` may call have, in both scopes, the same variables of their bodies spelled as
their parameters. -/
def Scope.SpelledAlike (s s' : Scope) (e : Expr) : Prop :=
  ∀ g f f', s.Reaches e f → s.function? g = some f → s'.function? g = some f' →
    Expr.SpelledAlike f.param f'.param f.body f'.body

def CalledWithin (R : UserFunction → Prop) (s : Scope) (g g' : String) : Prop :=
  Text.Recased g g' ∧ ∀ f, s.function? g = some f → R f

/-- An argument is put in the place of the variables that are spelled as the parameter, and of no
others; so these have to be the same. -/
theorem inlineDeep_recased {R : UserFunction → Prop} (n : Nat) (hs : s.Recased s')
    (hR : s.Closed R)
    (hspelled : ∀ g f f', R f → s.function? g = some f → s'.function? g = some f' →
      Expr.SpelledAlike f.param f'.param f.body f'.body)
    (he : e.Alike Text.Recased (CalledWithin R s) e') :
    Accord Expr.Recased (inlineDeep s n e) (inlineDeep s' n e') := by
  induction n generalizing e e' with
  | zero => exact .error trivial
  | succ n ihn =>
    induction he using Expr.Alike.induct with
    | absent => exact .ok .absent
    | number t => exact .ok (.number t)
    | var h => exact .ok (.var h)
    | imaginary => exact .ok .imaginary
    | unary op _ ih => exact ih.map fun _ _ ha => .unary op ha
    | binary op _ _ ihl ihr =>
      exact ihl.bind fun _ _ ha => ihr.bind fun _ _ hb => .ok (.binary op ha hb)
    | @call g g' a a' hg ha ih =>
      obtain ⟨hname, hcalled⟩ := hg
      have hfunction := hs.function? hname
      have hkey : s'.function? g = s'.function? g' := by
        simp only [Scope.function?, Scope.lookup?, hname.lower_eq]
      simp only [inlineDeep, inlineWith]
      generalize hf : s.function? g = o, hf' : s'.function? g' = o' at hfunction ⊢
      cases hfunction with
      | none => exact ih.map fun _ _ ha => .call hname ha
      | @some f f' h =>
        have hbody := hspelled g f f' (hcalled f hf) hf (hkey.trans hf')
        have hcalls := hbody.and_calls fun g hg u hu => hR f (hcalled f hf) g u hg hu
        exact ihn (hcalls.subst ha fun h => h)
    | matrix _ ih =>
      have hrows := Expr.Alike.rows ih
      exact (inlineRows_recased hrows).map fun _ _ h => .matrix h
    | other d => exact .ok (.other d)

/-- Recased expressions are written out to recased ones: an argument is put in the place of the
same variables of a body. -/
theorem Scope.SpelledAlike.inline (h : s.SpelledAlike s' e) (hs : s.Recased s')
    (he : e.Recased e') (n : Nat) :
    Accord Expr.Recased (inlineDeep s n e) (inlineDeep s' n e') :=
  inlineDeep_recased n hs (s.closed_reaches e) h
    (he.and_calls fun _ hg _ hf => .called hg hf)

end Inline

end Reckoner
