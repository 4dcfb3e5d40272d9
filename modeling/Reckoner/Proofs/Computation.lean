import Reckoner.Proofs.Inlining
import Reckoner.Proofs.Relevance

namespace Reckoner
open Outcome Eval Inline

/-- The expression is made of numerals, names of rationals and signs, and comes to a rational. -/
inductive Expr.Computes (u : Scope) : Expr → Rat → Prop where
  | number {t : String} {q : Rat} (h : Rational.readNumeral t = .ok q) : Computes u (.number t) q
  | var {y : String} {q : Rat} (h : u.lookup? y = some (.rational q)) : Computes u (.var y) q
  | neg {e : Expr} {q : Rat} (h : Computes u e q) : Computes u (.unary .neg e) (-q)
  | binary {op : BinOp} {l r : Expr} {a b c : Rat} (hl : Computes u l a) (hr : Computes u r b)
      (h : Value.combine op (.rational a) (.rational b) = .ok (.rational c)) :
      Computes u (.binary op l r) c

namespace Scope
variable {R : UserFunction → Prop} {s t : Scope} {y : String} {v : Value}

/-- A name that is no parameter stands for what it stood for outside the calls. -/
theorem Within.lookup?_of (h : s.Within R t) (hy : ¬ IsParam R y) (hv : s.lookup? y = some v)
    (hb : ∀ b home, v ≠ .builtin b home) : t.lookup? y = some v := by
  have hbare := h.lookup?_eq y hy
  rw [hv] at hbare
  obtain ⟨w, hw, hwv⟩ := Option.map_eq_some_iff.mp hbare
  have hwv' : w = v := by
    cases v with
    | builtin b home => exact absurd rfl (hb b home)
    | rational | complex | matrix | function | plain =>
      cases w <;> cases hwv
      rfl
  rw [hw, hwv']

theorem lookup?_enter (hv : v.isAbsent = false) (s : Scope) (p : String) :
    (s.enter p v).lookup? p = some v := by
  simp [lookup?, enter, bind, lookup_set, hv]

theorem lookup?_bind_of_ne {x : String} (h : Text.lower y ≠ Text.lower x) (v : Value) :
    (s.bind x v).lookup? y = s.lookup? y := by
  simp only [lookup?, lookup_bind, h, if_false]
  rfl

end Scope

namespace Inline
variable {s : Scope} {m n : Nat} {e e₁ e₂ : Expr}

/-- What is written out does not depend on how deep it may go. -/
theorem inlineDeep_unique (h₁ : inlineDeep s m e = .ok e₁) (h₂ : inlineDeep s n e = .ok e₂) :
    e₁ = e₂ := by
  have h₁' := (inlineDeep_cut (le_max_left m n) s e).eq_ok h₁
  have h₂' := (inlineDeep_cut (le_max_right m n) s e).eq_ok h₂
  exact Except.ok.inj (h₁'.symm.trans h₂')

theorem inlineDeep_var {y : String} (h : inlineDeep s n (.var y) = .ok e) : .var y = e := by
  cases n with
  | zero => cases h
  | succ n => exact Except.ok.inj h

end Inline

namespace Expr.Computes
variable {R : UserFunction → Prop} {s t u : Scope} {σ : String → Expr} {b d e : Expr} {q : Rat}
  {n : Nat}

/-- Such an expression has its value without any calls. -/
theorem evalDeep (h : e.Computes u q) : evalDeep 1 u e = .ok (.rational q) := by
  induction h with
  | number h => simp [Eval.evalDeep, evalWith, h]
  | var h => simp [Eval.evalDeep, evalWith, h]
  | neg _ ih =>
    rw [Eval.evalDeep, evalWith, ← Eval.evalDeep, ih]
    rfl
  | binary _ _ h ihl ihr =>
    rw [Eval.evalDeep, evalWith, ← Eval.evalDeep, ihl, ihr]
    exact h

theorem unique {q' : Rat} (h : e.Computes u q) (h' : e.Computes u q') : q = q' := by
  cases h.evalDeep.symm.trans h'.evalDeep
  rfl

/-- Functions that mean in `u` what they mean where `s` writes them out. -/
structure Exposed (R : UserFunction → Prop) (s u : Scope) : Prop where
  closed : s.Closed R
  callsFree : CallsFree R
  captureFree : CaptureFree R
  used : ∀ f, R f → f.body.mentions f.param = true
  kept : ∀ f, R f → ∀ g f', f.body.calls g = true → s.function? g = some f' →
    u.function? g = some f'

/-- What is put in the place of a variable is computed, if the variable occurs in what is. -/
theorem of_mentions (hused : ∀ f, R f → f.body.mentions f.param = true) (hR : s.Closed R)
    (hcalls : ∀ g f, b.calls g = true → s.function? g = some f → R f) {y : String}
    (hy : b.mentions y = true) (h : inlineDeep s n (b.bindVars σ) = .ok e)
    (hq : e.Computes u q) : ∃ e' q', inlineDeep s n (σ y) = .ok e' ∧ e'.Computes u q' := by
  induction n generalizing σ b e q y with
  | zero => cases h
  | succ n ihn =>
    induction b generalizing e q with
    | absent | number | imaginary | other => cases hy
    | var z =>
      cases eq_of_beq hy
      exact ⟨e, q, h, hq⟩
    | unary op a ih =>
      obtain ⟨a', ha, rfl⟩ := map_eq_ok.mp h
      cases hq with
      | neg hq => exact ih hcalls hy ha hq
    | binary op l r ihl ihr =>
      obtain ⟨l', hl, h⟩ := bind_eq_ok.mp h
      obtain ⟨r', hr, h⟩ := bind_eq_ok.mp h
      cases h
      cases hq with
      | binary hql hqr =>
        rcases Bool.or_eq_true_iff.mp hy with hy | hy
        · exact ihl (fun g f hg => hcalls g f (Part.calls (.left op l r) hg)) hy hl hql
        · exact ihr (fun g f hg => hcalls g f (Part.calls (.right op l r) hg)) hy hr hqr
    | call g a ih =>
      have hg : (Expr.call g a).calls g = true := by simp [calls]
      simp only [inlineDeep, bindVars, inlineWith] at h
      cases hf : s.function? g with
      | none =>
        rw [hf] at h
        obtain ⟨a', -, rfl⟩ := map_eq_ok.mp h
        cases hq
      | some f =>
        rw [hf] at h
        have hRf := hcalls g f hg hf
        -- The argument is found through the parameter, one call deeper.
        simp only [subst_eq_bindVars] at h
        obtain ⟨a', q', ha, hq'⟩ := ihn (hR f hRf) (hused f hRf) h hq
        rw [if_pos rfl] at ha
        have ha' := (inlineDeep_cut n.le_succ s _).eq_ok ha
        exact ih (fun g f hg => hcalls g f (Part.calls (.arg _ a) hg)) hy ha' hq'
    | matrix rows =>
      obtain ⟨rows', -, rfl⟩ := map_eq_ok.mp h
      cases hq

/-- In `t` the functions that `b` calls are those of `s`, and its variables stand for what `σ` puts
in their place. -/
structure Follows (R : UserFunction → Prop) (s u t : Scope) (σ : String → Expr) (b : Expr) :
    Prop where
  functions : ∀ g f, b.calls g = true → s.function? g = some f →
    R f ∧ t.lookup? g = some (.function f)
  vars : ∀ y, b.mentions y = true → ∀ n e q, inlineDeep s n (σ y) = .ok e → e.Computes u q →
    t.lookup? y = some (.rational q)

theorem Follows.part (h : Follows R s u t σ b) (hd : d.Part b) : Follows R s u t σ d :=
  ⟨fun g f hg => h.functions g f (hd.calls hg), fun y hy => h.vars y (hd.mentions hy)⟩

/-- The body of a function follows what is written out of its call. -/
theorem Follows.body {f : UserFunction} {a a' : Expr} (hR : Exposed R s u) (ht : u.Within R t)
    (hf : R f) (ha : inlineDeep s n a = .ok a') (hq : a'.Computes u q) :
    Follows R s u (t.enter f.param (.rational q)) (fun y => if y = f.param then a else .var y)
      f.body := by
  have hin := ht.enter hf (.rational q)
  constructor
  · intro g f' hg hf'
    have hu := Scope.function?_eq_some.mp (hR.kept f hf g f' hg hf')
    exact ⟨hR.closed f hf g f' hg hf', hin.lookup?_of (hR.callsFree f hf g hg) hu nofun⟩
  · intro y hy m e q' he hq'
    by_cases hp : y = f.param
    · subst hp
      rw [if_pos rfl] at he
      cases inlineDeep_unique ha he
      cases hq.unique hq'
      exact Scope.lookup?_enter rfl t f.param
    · rw [if_neg hp] at he
      cases inlineDeep_var he
      cases hq' with
      | var hu => exact hin.lookup?_of (hR.captureFree f hf y hy hp) hu nofun

/-- What the expression comes to with its calls written out, it comes to by calling. -/
theorem evalDeep_bindVars (hR : Exposed R s u) (ht : u.Within R t) (hb : Follows R s u t σ b)
    (h : inlineDeep s n (b.bindVars σ) = .ok e) (hq : e.Computes u q) :
    Eval.evalDeep n t b = .ok (.rational q) := by
  -- Outside, on the depth of calls; inside, on the expression, whose parts are as deep.
  induction n generalizing t σ b e q with
  | zero => cases h
  | succ n ihn =>
    induction b generalizing e q with
    | absent | imaginary | other =>
      cases h
      cases hq
    | number text =>
      cases h
      cases hq with
      | number hq => simp [Eval.evalDeep, evalWith, hq]
    | var y => simp [Eval.evalDeep, evalWith, hb.vars y (by simp [mentions]) _ e q h hq]
    | unary op a ih =>
      obtain ⟨a', ha, rfl⟩ := map_eq_ok.mp h
      cases hq with
      | neg hq => exact bind_eq_ok.mpr ⟨_, ih (hb.part (.unary _ a)) ha hq, rfl⟩
    | binary op l r ihl ihr =>
      obtain ⟨l', hl, h⟩ := bind_eq_ok.mp h
      obtain ⟨r', hr, h⟩ := bind_eq_ok.mp h
      cases h
      cases hq with
      | binary hql hqr hc =>
        exact bind_eq_ok.mpr ⟨_, ihl (hb.part (.left op l r)) hl hql,
          bind_eq_ok.mpr ⟨_, ihr (hb.part (.right op l r)) hr hqr, hc⟩⟩
    | call g a ih =>
      have hg : (Expr.call g a).calls g = true := by simp [calls]
      simp only [inlineDeep, bindVars, inlineWith] at h
      cases hf : s.function? g with
      | none =>
        rw [hf] at h
        obtain ⟨a', -, rfl⟩ := map_eq_ok.mp h
        cases hq
      | some f =>
        rw [hf] at h
        simp only [subst_eq_bindVars] at h
        obtain ⟨hRf, hft⟩ := hb.functions g f hg hf
        obtain ⟨a', q', ha, hq'⟩ :=
          of_mentions hR.used hR.closed (hR.closed f hRf) (hR.used f hRf) h hq
        rw [if_pos rfl] at ha
        have harg := ih (hb.part (.arg g a)) ((inlineDeep_cut n.le_succ s _).eq_ok ha) hq'
        refine bind_eq_ok.mpr ⟨_, harg, ?_⟩
        rw [applyNamed, hft]
        exact ihn (ht.enter hRf _) (.body hR ht hRf ha hq') h hq
    | matrix rows =>
      obtain ⟨rows', -, rfl⟩ := map_eq_ok.mp h
      cases hq

end Expr.Computes

/-- The calls in `e` may be written out around the unknown `x`: no parameter hides a name that a
body relies on, no function that is called has the name `x`, and each parameter is used, since an
argument that is not used disappears when a call is written out, and evaluated it may fail. -/
structure Expr.Inlinable (s : Scope) (x : String) (e : Expr) : Prop where
  callsFree : CallsFree (s.Reaches e)
  captureFree : CaptureFree (s.Reaches e)
  used : ∀ f, s.Reaches e f → f.body.mentions f.param = true
  apart : ∀ g, Text.lower g = Text.lower x →
    e.calls g = false ∧ ∀ f, s.Reaches e f → f.body.calls g = false

namespace Expr.Inlinable
variable {s : Scope} {x : String} {e e' : Expr} {a q : Rat}

theorem exposed (h : e.Inlinable s x) (v : Value) :
    Computes.Exposed (s.Reaches e) s (s.bind x v) where
  closed := s.closed_reaches e
  callsFree := h.callsFree
  captureFree := h.captureFree
  used := h.used
  kept f hf g f' hg hf' := by
    have hne : Text.lower g ≠ Text.lower x := by
      intro he
      rw [(h.apart g he).2 f hf] at hg
      cases hg
    rwa [Scope.function?, Scope.lookup?_bind_of_ne hne, ← Scope.function?]

/-- Where an expression comes to a number with its calls written out, for some value of the unknown,
it evaluates to that number. -/
theorem eval_eq (h : e.Inlinable s x) (he : Equation.expand s e = .ok e')
    (hq : e'.Computes (s.bind x (.rational a)) q) :
    (s.bind x (.rational a)).eval e = .ok (.rational q) := by
  have hinline : inlineDeep s maxDepth (e.bindVars .var) = .ok e' := by
    rw [bindVars_var, ← expandDeep_eq]
    exact he
  refine Computes.evalDeep_bindVars (h.exposed _) (.refl _) ⟨fun g f hg hf => ⟨.called hg hf, ?_⟩,
    fun y _ n d r hd hr => ?_⟩ hinline hq
  · have hne : Text.lower g ≠ Text.lower x := by
      intro he
      rw [(h.apart g he).1] at hg
      cases hg
    rw [Scope.lookup?_bind_of_ne hne]
    exact Scope.function?_eq_some.mp hf
  · cases inlineDeep_var hd
    cases hr with
    | var hr => exact hr

end Expr.Inlinable
end Reckoner
