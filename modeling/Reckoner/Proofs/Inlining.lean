import Mathlib.Data.List.Forall2
import Reckoner.Equation.Expand
import Reckoner.Inline
import Reckoner.Proofs.Eval

namespace Reckoner.Inline
open Outcome Eval

section Depth
variable {run run' : Expr → Except Error Expr} {s : Scope}

theorem inlineRow_cut {r : List Expr}
    (ih : ∀ e ∈ r, Cut (inlineWith run s e) (inlineWith run' s e)) :
    Cut (inlineRow run s r) (inlineRow run' s r) := by
  induction r with
  | nil => exact .refl _
  | cons e es iht =>
    obtain ⟨he, hes⟩ := List.forall_mem_cons.mp ih
    exact he.bind fun a => (iht hes).bind fun as => .refl _

theorem inlineRows_cut {rows : List (List Expr)}
    (ih : ∀ r ∈ rows, ∀ e ∈ r, Cut (inlineWith run s e) (inlineWith run' s e)) :
    Cut (inlineRows run s rows) (inlineRows run' s rows) := by
  induction rows with
  | nil => exact .refl _
  | cons r rs iht =>
    obtain ⟨hr, hrs⟩ := List.forall_mem_cons.mp ih
    exact (inlineRow_cut hr).bind fun a => (iht hrs).bind fun as => .refl _

/-- Only calls look at how deep they are, so a deeper limit changes nothing else. -/
theorem inlineWith_cut (h : ∀ e, Cut (run e) (run' e)) (s : Scope) (e : Expr) :
    Cut (inlineWith run s e) (inlineWith run' s e) := by
  induction e with
  | absent | number | var | imaginary | other => exact .refl _
  | unary op e ih => exact ih.map _
  | binary op l r ihl ihr => exact ihl.bind fun a => ihr.bind fun b => .refl _
  | call g e ih =>
    unfold inlineWith
    cases s.function? g with
    | none => exact ih.map _
    | some f => exact h _
  | matrix rows ih => exact (inlineRows_cut ih).map _

/-- What is written out stays so when calls may be nested deeper. -/
theorem inlineDeep_cut {m n : Nat} (h : m ≤ n) (s : Scope) (e : Expr) :
    Cut (inlineDeep s m e) (inlineDeep s n e) := by
  induction m generalizing n e with
  | zero => exact .inl rfl
  | succ m ih =>
    obtain ⟨n, rfl⟩ : ∃ k, n = k + 1 := ⟨n - 1, by omega⟩
    exact inlineWith_cut (fun e => ih (by omega) e) s e

end Depth

section Expand
variable {s : Scope} {run : Expr → Except Error Expr}
  {rule : String → Expr → Option (Except Error Expr)}

theorem replaceCallsRow_eq {r : List Expr}
    (ih : ∀ e ∈ r, Equation.replaceCalls rule e = inlineWith run s e) :
    Equation.replaceCallsRow rule r = inlineRow run s r := by
  induction r with
  | nil => rfl
  | cons e es iht =>
    obtain ⟨he, hes⟩ := List.forall_mem_cons.mp ih
    simp only [Equation.replaceCallsRow, inlineRow, he, iht hes]

theorem replaceCallsRows_eq {rows : List (List Expr)}
    (ih : ∀ r ∈ rows, ∀ e ∈ r, Equation.replaceCalls rule e = inlineWith run s e) :
    Equation.replaceCallsRows rule rows = inlineRows run s rows := by
  induction rows with
  | nil => rfl
  | cons r rs iht =>
    obtain ⟨hr, hrs⟩ := List.forall_mem_cons.mp ih
    simp only [Equation.replaceCallsRows, inlineRows, replaceCallsRow_eq hr, iht hrs]

/-- The rule that writes out the sides of an equation, for one depth. -/
theorem replaceCalls_eq (e : Expr) :
    Equation.replaceCalls (fun g a =>
      (s.function? g).map (fun f => run (Expr.subst f.param a f.body))) e = inlineWith run s e := by
  induction e with
  | absent | number | var | imaginary | other => rfl
  | unary op e ih => simp only [Equation.replaceCalls, inlineWith, ih]
  | binary op l r ihl ihr => simp only [Equation.replaceCalls, inlineWith, ihl, ihr]
  | call g a ih =>
    simp only [Equation.replaceCalls, inlineWith, ih]
    cases s.function? g <;> rfl
  | matrix rows ih => simp only [Equation.replaceCalls, inlineWith, replaceCallsRows_eq ih]

/-- The sides of an equation are written out as any other expression is. -/
theorem expandDeep_eq (s : Scope) (n : Nat) (e : Expr) :
    Equation.expandDeep s n e = inlineDeep s n e := by
  induction n generalizing e with
  | zero => rfl
  | succ n ih =>
    simp only [Equation.expandDeep, Equation.replace, ih, ← Expr.subst_eq_bindVars]
    exact replaceCalls_eq e

end Expand

/-- The calls of `e`, written out to any depth from some depth on, leave `e'`. -/
def Inlines (s : Scope) (e e' : Expr) : Prop :=
  ∃ m, ∀ k, m ≤ k → inlineDeep s (k + 1) e = .ok e'

namespace Inlines
variable {s : Scope} {e e' l l' r r' : Expr} {f : UserFunction} {g : String}

/-- At any depth there is no other result, if there is one. -/
theorem inlineDeep_eq (h : Inlines s e e') (k : Nat) :
    inlineDeep s k e = .ok e' ∨ inlineDeep s k e = .error .recursion := by
  obtain ⟨m, hm⟩ := h
  have hcut : Cut (inlineDeep s k e) (inlineDeep s (max m k + 1) e) :=
    inlineDeep_cut (by omega) s e
  rw [hm _ (by omega)] at hcut
  exact hcut.symm

/-- What is written out part by part is written out as a whole, from the greatest of the depths
on. -/
theorem unary (op : UnOp) (h : Inlines s e e') : Inlines s (.unary op e) (.unary op e') := by
  obtain ⟨m, hm⟩ := h
  refine ⟨m, fun k hk => ?_⟩
  exact map_eq_ok.mpr ⟨e', hm k hk, rfl⟩

theorem binary (op : BinOp) (hl : Inlines s l l') (hr : Inlines s r r') :
    Inlines s (.binary op l r) (.binary op l' r') := by
  obtain ⟨m, hm⟩ := hl
  obtain ⟨n, hn⟩ := hr
  refine ⟨max m n, fun k hk => ?_⟩
  exact bind_eq_ok.mpr ⟨l', hm k (by omega), bind_eq_ok.mpr ⟨r', hn k (by omega), rfl⟩⟩

/-- A call of no user's function stays a call. -/
theorem kept (hg : s.function? g = none) (h : Inlines s e e') :
    Inlines s (.call g e) (.call g e') := by
  obtain ⟨m, hm⟩ := h
  refine ⟨m, fun k hk => ?_⟩
  simp only [inlineDeep, inlineWith, hg]
  exact map_eq_ok.mpr ⟨e', hm k hk, rfl⟩

/-- The call of a user's function is its body, written out, with the argument in it. -/
theorem writtenOut (hg : s.function? g = some f) (h : Inlines s (Expr.subst f.param e f.body) e') :
    Inlines s (.call g e) e' := by
  obtain ⟨m, hm⟩ := h
  refine ⟨m + 1, fun k hk => ?_⟩
  obtain ⟨k, rfl⟩ : ∃ j, k = j + 1 := ⟨k - 1, by omega⟩
  rw [inlineDeep]
  simp only [inlineWith, hg]
  exact hm k (by omega)

theorem row {es es' : List Expr} (h : List.Forall₂ (Inlines s) es es') :
    ∃ m, ∀ k, m ≤ k → inlineRow (inlineDeep s k) s es = .ok es' := by
  induction h with
  | nil => exact ⟨0, fun k _ => rfl⟩
  | @cons a a' as as' ha has ih =>
    obtain ⟨m, hm⟩ := ha
    obtain ⟨n, hn⟩ := ih
    refine ⟨max m n, fun k hk => ?_⟩
    exact bind_eq_ok.mpr ⟨a', hm k (by omega), bind_eq_ok.mpr ⟨as', hn k (by omega), rfl⟩⟩

theorem rows {rs rs' : List (List Expr)} (h : List.Forall₂ (List.Forall₂ (Inlines s)) rs rs') :
    ∃ m, ∀ k, m ≤ k → inlineRows (inlineDeep s k) s rs = .ok rs' := by
  induction h with
  | nil => exact ⟨0, fun k _ => rfl⟩
  | @cons a a' as as' ha has ih =>
    obtain ⟨m, hm⟩ := row ha
    obtain ⟨n, hn⟩ := ih
    refine ⟨max m n, fun k hk => ?_⟩
    exact bind_eq_ok.mpr ⟨a', hm k (by omega), bind_eq_ok.mpr ⟨as', hn k (by omega), rfl⟩⟩

theorem matrix {rs rs' : List (List Expr)} (h : List.Forall₂ (List.Forall₂ (Inlines s)) rs rs') :
    Inlines s (.matrix rs) (.matrix rs') := by
  obtain ⟨m, hm⟩ := rows h
  refine ⟨m, fun k hk => ?_⟩
  exact map_eq_ok.mpr ⟨rs', hm k hk, rfl⟩

end Inlines

/-- The variables that are left in `e` mean what they meant before. -/
def Reliable (R : UserFunction → Prop) (e : Expr) : Prop :=
  e.hasVariables = false ∨ CaptureFree R

theorem Reliable.part {R : UserFunction → Prop} {d e : Expr} (h : Reliable R e)
    (hd : e.hasVariables = false → d.hasVariables = false) : Reliable R d :=
  h.imp_left hd

/-- With its calls written out, `e` has the value `v`. -/
def Stands (R : UserFunction → Prop) (s : Scope) (e : Expr) (v : Value) : Prop :=
  ∃ e', Inlines s e e' ∧ (Reliable R e' → ∃ w, evalDeep 1 s e' = .ok w ∧ w.bare = v.bare)

namespace Stands
variable {R : UserFunction → Prop} {s : Scope} {e l r : Expr} {a b v : Value} {f : UserFunction}
  {g : String}

theorem unary {op : UnOp} (h : Stands R s e a) (hn : negate op a = .ok v) :
    Stands R s (.unary op e) v := by
  obtain ⟨e', hi, hv⟩ := h
  refine ⟨_, hi.unary op, fun hr => ?_⟩
  obtain ⟨w, hw, hb⟩ := hv (hr.part id)
  exact ⟨v, bind_eq_ok.mpr ⟨w, hw, (negate_congr op hb).trans hn⟩, rfl⟩

theorem binary {op : BinOp} (hl : Stands R s l a) (hr : Stands R s r b)
    (hc : Value.combine op a b = .ok v) : Stands R s (.binary op l r) v := by
  obtain ⟨l', hil, hvl⟩ := hl
  obtain ⟨r', hir, hvr⟩ := hr
  refine ⟨_, hil.binary op hir, fun h => ?_⟩
  obtain ⟨x, hx, hxa⟩ := hvl (h.part fun hh => (Bool.or_eq_false_iff.mp hh).1)
  obtain ⟨y, hy, hyb⟩ := hvr (h.part fun hh => (Bool.or_eq_false_iff.mp hh).2)
  have hxy := (combine_congr op hxa hyb).trans hc
  exact ⟨v, bind_eq_ok.mpr ⟨x, hx, bind_eq_ok.mpr ⟨y, hy, hxy⟩⟩, rfl⟩

/-- The call of a builtin function. -/
theorem builtin {f : Builtin} {home : Home} (h : Stands R s e a)
    (hg : s.lookup? g = some (.builtin f home)) (hf : f.apply (s.modeOf home) a = .ok v) :
    Stands R s (.call g e) v := by
  obtain ⟨e', hi, hv⟩ := h
  have hnone : s.function? g = none := by simp only [Scope.function?, hg]
  refine ⟨_, hi.kept hnone, fun hr => ?_⟩
  obtain ⟨w, hw, hb⟩ := hv (hr.part id)
  refine ⟨v, bind_eq_ok.mpr ⟨w, hw, ?_⟩, rfl⟩
  simp only [applyNamed, hg]
  exact (apply_congr f _ hb).trans hf

/-- A call stands for what its body stands for, with the argument in the place of the parameter. -/
theorem function (hg : s.function? g = some f) (h : Stands R s (Expr.subst f.param e f.body) v) :
    Stands R s (.call g e) v := by
  obtain ⟨e', hi, hv⟩ := h
  exact ⟨e', hi.writtenOut hg, hv⟩

/-- The rows that are written out, and their values. -/
theorem row {run : Scope → Expr → Except Error Value} {t : Scope} {σ : String → Expr}
    {es : List Expr} {vs : List Value}
    (ih : ∀ e ∈ es, ∀ v, evalWith run t e = .ok v → Stands R s (e.bindVars σ) v)
    (h : evalRow run t es = .ok vs) :
    ∃ es', List.Forall₂ (Inlines s) (es.map (Expr.bindVars σ)) es' ∧
      ((∀ e ∈ es', Reliable R e) → ∃ ws, evalRow (evalDeep 0) s es' = .ok ws ∧
        ws.map Value.bare = vs.map Value.bare) := by
  induction es generalizing vs with
  | nil =>
    cases h
    exact ⟨[], .nil, fun _ => ⟨[], rfl, rfl⟩⟩
  | cons e es iht =>
    obtain ⟨hhead, htail⟩ := List.forall_mem_cons.mp ih
    simp only [evalRow, bind_eq_ok, pure_eq_ok, Except.ok.injEq] at h
    obtain ⟨v, hv, us, hus, rfl⟩ := h
    obtain ⟨e', hi, hw⟩ := hhead v hv
    obtain ⟨es', his, hws⟩ := iht htail hus
    refine ⟨e' :: es', .cons hi his, fun hr => ?_⟩
    obtain ⟨hre, hres⟩ := List.forall_mem_cons.mp hr
    obtain ⟨w, hwe, hwb⟩ := hw hre
    obtain ⟨ws, hwes, hwsb⟩ := hws hres
    refine ⟨w :: ws, bind_eq_ok.mpr ⟨w, hwe, bind_eq_ok.mpr ⟨ws, hwes, rfl⟩⟩, ?_⟩
    simp only [List.map_cons, hwb, hwsb]

theorem rows {run : Scope → Expr → Except Error Value} {t : Scope} {σ : String → Expr}
    {rs : List (List Expr)} {qs : List (List Rat)}
    (ih : ∀ r ∈ rs, ∀ e ∈ r, ∀ v, evalWith run t e = .ok v → Stands R s (e.bindVars σ) v)
    (h : evalRows run t rs = .ok qs) :
    ∃ rs', List.Forall₂ (List.Forall₂ (Inlines s)) (rs.map (List.map (Expr.bindVars σ))) rs' ∧
      ((∀ r ∈ rs', ∀ e ∈ r, Reliable R e) → evalRows (evalDeep 0) s rs' = .ok qs) := by
  induction rs generalizing qs with
  | nil =>
    cases h
    exact ⟨[], .nil, fun _ => rfl⟩
  | cons r rs iht =>
    obtain ⟨hhead, htail⟩ := List.forall_mem_cons.mp ih
    simp only [evalRows, bind_eq_ok, pure_eq_ok, Except.ok.injEq] at h
    obtain ⟨vs, hvs, q, hq, ps, hps, rfl⟩ := h
    obtain ⟨r', hi, hw⟩ := row hhead hvs
    obtain ⟨rs', his, hws⟩ := iht htail hps
    refine ⟨r' :: rs', .cons hi his, fun hr => ?_⟩
    obtain ⟨hrr, hrrs⟩ := List.forall_mem_cons.mp hr
    obtain ⟨ws, hwr, hwb⟩ := hw hrr
    have hq' : ws.mapM element = .ok q := (elements_congr hwb).trans hq
    exact bind_eq_ok.mpr ⟨ws, hwr, bind_eq_ok.mpr ⟨q, hq', bind_eq_ok.mpr ⟨ps, hws hrrs, rfl⟩⟩⟩

theorem matrix {run : Scope → Expr → Except Error Value} {t : Scope} {σ : String → Expr}
    {rs : List (List Expr)} {qs : List (List Rat)}
    (ih : ∀ r ∈ rs, ∀ e ∈ r, ∀ v, evalWith run t e = .ok v → Stands R s (e.bindVars σ) v)
    (h : evalRows run t rs = .ok qs) (hm : Eval.ofRows qs = .ok v) :
    Stands R s (.matrix (rs.map (List.map (Expr.bindVars σ)))) v := by
  obtain ⟨rs', hi, hw⟩ := rows ih h
  refine ⟨_, .matrix hi, fun hr => ?_⟩
  have hparts : ∀ r ∈ rs', ∀ e ∈ r, Reliable R e := by
    intro r hrr e he
    refine hr.part fun hh => ?_
    simp only [Expr.hasVariables, Expr.hasVariablesRows_eq, List.any_eq_false,
      Bool.not_eq_true] at hh
    exact hh r hrr e he
  exact ⟨v, bind_eq_ok.mpr ⟨qs, hw hparts, hm⟩, rfl⟩

end Stands

/-- The functions of angles measure alike in a body and where it is written out. -/
def AnglesKept (R : UserFunction → Prop) (s : Scope) : Prop :=
  s.mode = .radians ∨ ∀ f, R f → ∀ g, f.body.calls g = true →
    ∀ b home, s.lookup? g = some (.builtin b home) → b.isAngular = false

structure CallsAlike (s t : Scope) (g : String) : Prop where
  lookup?_eq : (t.lookup? g).map Value.bare = (s.lookup? g).map Value.bare
  apply_eq : ∀ b home home', t.lookup? g = some (.builtin b home) →
    s.lookup? g = some (.builtin b home') → b.apply (t.modeOf home) = b.apply (s.modeOf home')

theorem CallsAlike.refl (s : Scope) (g : String) : CallsAlike s s g := by
  refine ⟨rfl, fun b home home' h h' => ?_⟩
  cases h.symm.trans h'
  rfl

theorem modeOf_radians {t : Scope} (h : t.mode = .radians) (home : Home) :
    t.modeOf home = .radians := by
  cases home with
  | session => exact h
  | call => rfl

/-- The body of a function calls what the session would call. -/
theorem CallsAlike.of_body {R : UserFunction → Prop} {s t : Scope} {g : String} {f : UserFunction}
    (hc : CallsFree R) (ha : AnglesKept R s) (ht : s.Within R t) (hf : R f)
    (hg : f.body.calls g = true) : CallsAlike s t g := by
  refine ⟨ht.lookup?_eq g (hc f hf g hg), fun b home home' _ hs => ?_⟩
  rcases ha with hm | hang
  · rw [modeOf_radians (ht.mode_eq.trans hm), modeOf_radians hm]
  · exact apply_of_not_angular (hang f hf g hg b home' hs) _ _

theorem CallsAlike.function {s t : Scope} {g : String} {f : UserFunction} (h : CallsAlike s t g)
    (hg : t.lookup? g = some (.function f)) : s.function? g = some f := by
  have hmap := h.lookup?_eq
  rw [hg] at hmap
  obtain ⟨u, hu, hub⟩ := Option.map_eq_some_iff.mp hmap.symm
  cases u with
  | function f' =>
    cases hub
    exact Scope.function?_eq_some.mpr hu
  | rational | complex | matrix | builtin | plain => cases hub

/-- A builtin function is the same one in both scopes, but may be at home elsewhere. -/
theorem CallsAlike.builtin {s t : Scope} {g : String} {b : Builtin} {home : Home}
    (h : CallsAlike s t g) (hg : t.lookup? g = some (.builtin b home)) :
    ∃ home', s.lookup? g = some (.builtin b home') := by
  have hmap := h.lookup?_eq
  rw [hg] at hmap
  obtain ⟨u, hu, hub⟩ := Option.map_eq_some_iff.mp hmap.symm
  cases u with
  | builtin b' home' =>
    cases hub
    exact ⟨home', hu⟩
  | rational | complex | matrix | function | plain => cases hub

/-- Functions whose bodies mean the same where they are written out. -/
structure Transparent (R : UserFunction → Prop) (s : Scope) : Prop where
  closed : s.Closed R
  calls : CallsFree R
  angles : AnglesKept R s

/-- Written out with `σ` in the place of variables, `b` comes to what it does in `t`. -/
structure Simulates (R : UserFunction → Prop) (s t : Scope) (σ : String → Expr) (b : Expr) :
    Prop where
  calls : ∀ g, b.calls g = true → CallsAlike s t g
  functions : ∀ g f, b.calls g = true → s.function? g = some f → R f
  vars : ∀ y, b.mentions y = true → ∀ w, t.lookup? y = some w → Stands R s (σ y) w

section Simulation
variable {R : UserFunction → Prop} {s t : Scope}

theorem Simulates.part {σ : String → Expr} {b d : Expr} (h : Simulates R s t σ b)
    (hc : ∀ g, d.calls g = true → b.calls g = true)
    (hv : ∀ y, d.mentions y = true → b.mentions y = true) : Simulates R s t σ d :=
  ⟨fun g hg => h.calls g (hc g hg), fun g f hg => h.functions g f (hc g hg),
    fun y hy => h.vars y (hv y hy)⟩

/-- A variable that is left stands for its value in the session. -/
theorem Stands.var {y : String} {w : Value}
    (h : CaptureFree R → (s.lookup? y).map Value.bare = some w.bare) : Stands R s (.var y) w := by
  refine ⟨.var y, ⟨0, fun k _ => rfl⟩, fun hr => ?_⟩
  rcases hr with hr | hr
  · cases hr
  · obtain ⟨u, hu, hub⟩ := Option.map_eq_some_iff.mp (h hr)
    exact ⟨u, by simp only [evalDeep, evalWith, hu], hub⟩

/-- The body of a function, with the argument in the place of the parameter. -/
theorem Simulates.body {f : UserFunction} {e : Expr} {a : Value} (hR : Transparent R s)
    (ht : s.Within R t) (hf : R f) (he : Stands R s e a) :
    Simulates R s (t.enter f.param a) (fun y => if y = f.param then e else .var y) f.body := by
  have hin := ht.enter hf a
  refine ⟨fun g hg => .of_body hR.calls hR.angles hin hf hg, fun g f' hg hf' =>
    hR.closed f hf g f' hg hf', fun y hy w hw => ?_⟩
  by_cases hp : y = f.param
  · subst hp
    rw [Scope.lookup?_enter_self hw]
    simpa using he
  · simp only [hp, if_false]
    refine .var fun hfree => ?_
    rw [← hin.lookup?_eq y (hfree f hf y hy hp), hw]
    rfl

/-- A call evaluates its argument first and its body in a scope of its own. Written out, the
argument stands in the body and is evaluated with it, as often as the parameter occurs. -/
theorem stands_bindVars {n : Nat} {σ : String → Expr} {b : Expr} {v : Value}
    (hR : Transparent R s) (ht : s.Within R t) (h : Simulates R s t σ b)
    (hv : evalDeep n t b = .ok v) : Stands R s (b.bindVars σ) v := by
  -- Outside, on the depth of calls; inside, on the expression, whose parts are as deep.
  induction n generalizing t σ b v with
  | zero => cases hv
  | succ n ihn =>
    induction b generalizing v with
    | absent | number | imaginary | other =>
      exact ⟨_, ⟨0, fun k _ => rfl⟩, fun _ => ⟨v, hv, rfl⟩⟩
    | var y =>
      simp only [evalDeep, evalWith] at hv
      split at hv
      · cases hv
      · cases hv
        exact h.vars y (by simp [Expr.mentions]) _ ‹_›
    | unary op e ih =>
      obtain ⟨a, hea, hn⟩ := bind_eq_ok.mp hv
      exact (ih (h.part (fun _ => id) (fun _ => id)) hea).unary hn
    | binary op l r ihl ihr =>
      obtain ⟨x, hlx, hv⟩ := bind_eq_ok.mp hv
      obtain ⟨y, hry, hcomb⟩ := bind_eq_ok.mp hv
      have hl : Simulates R s t σ l :=
        h.part (by simp +contextual [Expr.calls]) (by simp +contextual [Expr.mentions])
      have hr : Simulates R s t σ r :=
        h.part (by simp +contextual [Expr.calls]) (by simp +contextual [Expr.mentions])
      exact (ihl hl hlx).binary (ihr hr hry) hcomb
    | call g e ih =>
      obtain ⟨a, hea, hga⟩ := bind_eq_ok.mp hv
      have he := ih (h.part (by simp +contextual [Expr.calls]) (fun _ => id)) hea
      have hmem : (Expr.call g e).calls g = true := by simp [Expr.calls]
      have hg := h.calls g hmem
      rcases applyNamed_ok hga with ⟨f, hf, hbody⟩ | ⟨f, home, hf, happ⟩
      · have hfs := hg.function hf
        have hRf := h.functions g f hmem hfs
        refine .function hfs ?_
        rw [Expr.subst_eq_bindVars]
        exact ihn (ht.enter hRf a) (.body hR ht hRf he) hbody
      · obtain ⟨home', hfs⟩ := hg.builtin hf
        rw [hg.apply_eq f home home' hf hfs] at happ
        exact he.builtin hfs happ
    | matrix rows ih =>
      obtain ⟨qs, hqs, hm⟩ := bind_eq_ok.mp hv
      rw [Expr.bindVars, Expr.bindVarsRows_eq]
      refine .matrix (fun r hr e he w hw => ih r hr e he (h.part ?_ ?_) hw) hqs hm
      · intro g hg
        rw [Expr.calls, Expr.callsRows_eq]
        exact List.any_eq_true.mpr ⟨r, hr, List.any_eq_true.mpr ⟨e, he, hg⟩⟩
      · intro y hy
        rw [Expr.mentions, Expr.mentionsRows_eq]
        exact List.any_eq_true.mpr ⟨r, hr, List.any_eq_true.mpr ⟨e, he, hy⟩⟩

/-- An expression that has a value has it with its calls written out. -/
theorem stands_of_evalDeep {n : Nat} {e : Expr} {v : Value} (hR : Transparent R s)
    (he : ∀ g f, e.calls g = true → s.function? g = some f → R f)
    (hv : evalDeep n s e = .ok v) : Stands R s e v := by
  have hvars (y : String) (w : Value) (hw : s.lookup? y = some w) : Stands R s (.var y) w :=
    .var fun _ => by rw [hw]; rfl
  have h : Simulates R s s .var e := ⟨fun g _ => .refl s g, he, fun y _ w hw => hvars y w hw⟩
  have := stands_bindVars hR (.refl s) h hv
  rwa [Expr.bindVars_var] at this

end Simulation

def isNumeric : Value → Bool
  | .rational _ | .complex _ | .matrix _ => true
  | _ => false

/-- A numeric value has no home that could have been left out. -/
theorem eq_of_bare_eq {v w : Value} (hv : isNumeric v = true) (h : w.bare = v.bare) : w = v := by
  cases v with
  | rational | complex | matrix =>
    cases w <;> cases h
    rfl
  | function | builtin | plain => cases hv

/-- A session with `a = 3`, `f(x) = x * x + a` and `g(y) = f(y) - y`. -/
def nested : Scope where
  bindings := [("a", .rational 3),
    ("f", .function ⟨"x", .binary .add (.binary .mul (.var "x") (.var "x")) (.var "a"), some "f"⟩),
    ("g", .function ⟨"y", .binary .sub (.call "f" (.var "y")) (.var "y"), some "g"⟩)]
  mode := .radians
  home := .session

/-- There are no other functions in the session. -/
theorem nested_functions {name : String} {f : UserFunction} (h : nested.function? name = some f) :
    f = ⟨"x", .binary .add (.binary .mul (.var "x") (.var "x")) (.var "a"), some "f"⟩ ∨
    f = ⟨"y", .binary .sub (.call "f" (.var "y")) (.var "y"), some "g"⟩ := by
  have hm := Scope.mem_of_function? h
  simp only [nested, List.mem_cons, Prod.mk.injEq, Value.function.injEq, reduceCtorEq, and_false,
    List.not_mem_nil, or_false, false_or] at hm
  exact hm.imp And.right And.right

theorem nested_callsFree : CallsFree nested.Defines := by
  rintro f ⟨name, hf⟩ g hg ⟨f', ⟨name', hf'⟩, hp⟩
  have hg' : g = "f" := by
    rcases nested_functions hf with rfl | rfl
    · simp [Expr.calls] at hg
    · have : "f" = g := by simpa [Expr.calls] using hg
      exact this.symm
  subst hg'
  rcases nested_functions hf' with rfl | rfl <;> revert hp <;> decide

theorem nested_captureFree : CaptureFree nested.Defines := by
  rintro f ⟨name, hf⟩ y hy hne ⟨f', ⟨name', hf'⟩, hp⟩
  have hy' : y = "a" := by
    rcases nested_functions hf with rfl | rfl
    · have : "x" = y ∨ "a" = y := by simpa [Expr.mentions] using hy
      grind
    · have : "y" = y := by simpa [Expr.mentions] using hy
      grind
  subst hy'
  rcases nested_functions hf' with rfl | rfl <;> revert hp <;> decide

/-- Where no parameter hides a name that a body relies on, an expression with a numeric value has
that value too with its calls written out. Depth apart, writing them out comes to an end. -/
theorem eval_of_inlined (s : Scope) (e : Expr) (v : Value) (n : Nat) (hm : s.mode = .radians)
    (hc : CallsFree s.Defines) (hf : CaptureFree s.Defines) (hv : isNumeric v = true)
    (h : evalDeep n s e = .ok v) :
    ∃ e', (∃ m, ∀ k, m ≤ k → inlineDeep s k e = .ok e' ∧ Equation.expandDeep s k e = .ok e') ∧
      (∀ k, inlineDeep s k e = .ok e' ∨ inlineDeep s k e = .error .recursion) ∧
      ∀ k, 1 ≤ k → evalDeep k s e' = .ok v := by
  obtain ⟨e', hi, hw⟩ :=
    stands_of_evalDeep ⟨s.closed_defines, hc, .inl hm⟩ (fun g f _ hf => ⟨g, hf⟩) h
  obtain ⟨w, he, hb⟩ := hw (.inr hf)
  rw [eq_of_bare_eq hv hb] at he
  refine ⟨e', ?_, hi.inlineDeep_eq, fun k hk => (evalDeep_cut hk s e').eq_ok he⟩
  obtain ⟨m, hm⟩ := hi
  refine ⟨m + 1, fun k hk => ?_⟩
  obtain ⟨k, rfl⟩ : ∃ j, k = j + 1 := ⟨k - 1, by omega⟩
  rw [expandDeep_eq]
  exact ⟨hm k (by omega), hm k (by omega)⟩

/-- Calls nested in an argument and in a body. -/
theorem nested_inlined :
    (nested.mode = .radians ∧ CallsFree nested.Defines ∧ CaptureFree nested.Defines ∧
      nested.eval (.call "G" (.call "f" (.var "a"))) = .ok (.rational 135)) ∧
    ∃ e', (∃ m, ∀ k, m ≤ k → inlineDeep nested k (.call "G" (.call "f" (.var "a"))) = .ok e' ∧
        Equation.expandDeep nested k (.call "G" (.call "f" (.var "a"))) = .ok e') ∧
      (∀ k, inlineDeep nested k (.call "G" (.call "f" (.var "a"))) = .ok e' ∨
        inlineDeep nested k (.call "G" (.call "f" (.var "a"))) = .error .recursion) ∧
      ∀ k, 1 ≤ k → evalDeep k nested e' = .ok (.rational 135) := by
  have h : nested.eval (.call "G" (.call "f" (.var "a"))) = .ok (.rational 135) := by
    with_unfolding_all rfl
  exact ⟨⟨rfl, nested_callsFree, nested_captureFree, h⟩,
    eval_of_inlined nested _ _ _ rfl nested_callsFree nested_captureFree rfl h⟩

end Reckoner.Inline
