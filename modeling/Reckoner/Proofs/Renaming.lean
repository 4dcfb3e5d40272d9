import Reckoner.Proofs.Simulation

namespace Reckoner
open Outcome Eval
open Inline (isNumeric)

def rename (p z y : String) : String :=
  if Text.lower y = Text.lower p then z else y

/-- The function with `z` as its parameter. -/
def UserFunction.renamed (f : UserFunction) (z : String) : UserFunction :=
  ⟨z, f.body.mapNames (rename f.param z), f.name⟩

namespace Scope

def Stores (s : Scope) (h : UserFunction) : Prop :=
  ∃ k, (k, .function h) ∈ s.bindings

/-- The name occurs, ignoring case, in no body. -/
def Unread (s : Scope) (z : String) : Prop :=
  ∀ h, s.Stores h → ∀ y, h.body.reads y = true → Text.lower y ≠ Text.lower z

/-- The functions that a call of `g` may run, also from within other calls. A parameter may stand
for any of them. -/
def MayCall (s : Scope) (g : String) (h : UserFunction) : Prop :=
  s.function? g = some h ∨ IsParam s.Stores g ∧ s.Stores h

/-- The functions that may run while the parameter of `f` is bound by a call of `f`. A body is
evaluated with all names of its caller, so they see that parameter, unless one of their own has the
same name. -/
inductive RunsUnder (s : Scope) (f : UserFunction) : UserFunction → Prop where
  | called {g : String} {h : UserFunction} (hg : f.body.calls g = true) (hh : s.MayCall g h) :
      RunsUnder s f h
  | through {g : String} {h h' : UserFunction} (hr : RunsUnder s f h)
      (hp : Text.lower h.param ≠ Text.lower f.param) (hg : h.body.calls g = true)
      (hh : s.MayCall g h') : RunsUnder s f h'

/-- The functions that run within a call of `f` do not read its parameter, unless they have one of
the same name. -/
def KeepsParam (s : Scope) (f : UserFunction) : Prop :=
  ∀ h, s.RunsUnder f h → Text.lower h.param ≠ Text.lower f.param →
    ∀ y, h.body.reads y = true → Text.lower y ≠ Text.lower f.param

def Renames (f : UserFunction) (z : String) (v w : Value) : Prop :=
  w = v ∨ v = .function f ∧ w = .function (f.renamed z)

/-- A scope with the parameter of `f` renamed to `z`, in all places where `f` is bound or in some of
them. -/
structure Renamed (f : UserFunction) (z : String) (s t : Scope) : Prop where
  mode_eq : t.mode = s.mode
  home_eq : t.home = s.home
  bindings : List.Forall₂ (fun b b' => b'.1 = b.1 ∧ Renames f z b.2 b'.2) s.bindings t.bindings

theorem stores_of_function? {s : Scope} {g : String} {h : UserFunction}
    (hh : s.function? g = some h) : s.Stores h :=
  ⟨_, mem_of_function? hh⟩

theorem RunsUnder.stores {s : Scope} {f h : UserFunction} (hr : s.RunsUnder f h) :
    s.Stores h := by
  cases hr with
  | called _ hh | through _ _ _ hh =>
    rcases hh with hg | ⟨-, hs⟩
    · exact stores_of_function? hg
    · exact hs

/-- A function that is called within other calls is bound to its name in the session, or to a
parameter. -/
theorem Within.mayCall {s₀ s : Scope} {g : String} {h : UserFunction}
    (hw : s₀.Within s₀.Stores s) (hg : s.lookup? g = some (.function h)) (hs : s₀.Stores h) :
    s₀.MayCall g h := by
  by_cases hp : IsParam s₀.Stores g
  · exact .inr ⟨hp, hs⟩
  · have heq := hw.lookup?_eq g hp
    rw [hg] at heq
    obtain ⟨v, hv, hb⟩ := Option.map_eq_some_iff.mp heq.symm
    cases v with
    | function h' =>
      cases hb
      exact .inl (function?_eq_some.mpr hv)
    | rational | complex | matrix | builtin | plain => cases hb

end Scope

namespace Renaming
open Scope
variable {s₀ s t : Scope} {f : UserFunction} {z : String} {ρ : String → String} {d e : Expr}

/-- Functions of the session are alike if they are the same up to the new name. -/
def comparison (s₀ : Scope) (f : UserFunction) (z : String) : Comparison where
  functions h h' := s₀.Stores h ∧ (h' = h ∨ h = f ∧ h' = f.renamed z)
  plain := True
  strict := False

/-- Runs that have come to the same expression, with the old parameter's value the same in both. -/
structure Apart (s₀ : Scope) (f : UserFunction) (z : String) (s t : Scope)
    (ρ : String → String) (e : Expr) : Prop where
  names_eq : ρ = id
  within : s₀.Within s₀.Stores s
  agree : Agree (comparison s₀ f z) (fun k => k ≠ Text.lower z) s t
  fresh : ∀ y, e.reads y = true → Text.lower y ≠ Text.lower z

/-- Runs that have come to an expression within a call of `f`, and to the renamed expression within
a call of the renamed function. -/
structure Under (s₀ : Scope) (f : UserFunction) (z : String) (s t : Scope)
    (ρ : String → String) (e : Expr) : Prop where
  names_eq : ρ = rename f.param z
  within : s₀.Within s₀.Stores s
  agree : Agree (comparison s₀ f z) (fun k => k ≠ Text.lower f.param ∧ k ≠ Text.lower z) s t
  param : ∀ y, e.reads y = true → Text.lower y = Text.lower f.param →
    Option.Rel ((comparison s₀ f z).Alike s.modeOf t.modeOf) (s.lookup? y) (t.lookup? z)
  fresh : ∀ y, e.reads y = true → Text.lower y ≠ Text.lower z
  runs : ∀ g h, e.calls g = true → s₀.MayCall g h → s₀.RunsUnder f h

/-- How far two runs have come, of which one has the parameter renamed. -/
def Together (s₀ : Scope) (f : UserFunction) (z : String) (s t : Scope)
    (ρ : String → String) (e : Expr) : Prop :=
  Apart s₀ f z s t ρ e ∨ Under s₀ f z s t ρ e

/-- Runs that have come to an expression have come to its parts. -/
theorem Apart.part (hd : d.Part e) (h : Apart s₀ f z s t ρ e) : Apart s₀ f z s t ρ d :=
  { h with fresh := fun y hy => h.fresh y (hd.reads hy) }

theorem Under.part (hd : d.Part e) (h : Under s₀ f z s t ρ e) : Under s₀ f z s t ρ d :=
  { h with
    param := fun y hy => h.param y (hd.reads hy)
    fresh := fun y hy => h.fresh y (hd.reads hy)
    runs := fun g k hg => h.runs g k (hd.calls hg) }

namespace Together

theorem within (h : Together s₀ f z s t ρ e) : s₀.Within s₀.Stores s :=
  h.elim Apart.within Under.within

/-- Apart from the two names, the runs have the same names for alike values. -/
theorem agree (h : Together s₀ f z s t ρ e) :
    Agree (comparison s₀ f z) (fun k => k ≠ Text.lower f.param ∧ k ≠ Text.lower z) s t := by
  rcases h with h | h
  · exact ⟨fun k hk => h.agree.bound k hk.2, fun k b hk => h.agree.found k b hk.2⟩
  · exact h.agree

/-- A name that occurs stands for alike values in both runs. -/
theorem lookup? (h : Together s₀ f z s t ρ e) {y : String} (hy : e.reads y = true) :
    Option.Rel ((comparison s₀ f z).Alike s.modeOf t.modeOf) (s.lookup? y) (t.lookup? (ρ y)) := by
  rcases h with h | h
  · rw [h.names_eq]
    exact h.agree.lookup? (h.fresh y hy)
  · rw [h.names_eq, rename]
    split
    · rename_i hp
      exact h.param y hy hp
    · rename_i hp
      exact h.agree.lookup? ⟨hp, h.fresh y hy⟩

variable {g : String} {h : UserFunction} {a a' : Value}

/-- The calls of `f` and of the renamed function come to its body and the renamed body. -/
theorem enter_renamed (hT : Together s₀ f z s t ρ e) (hz : s₀.Unread z) (hf : s₀.Stores f)
    (ha : (comparison s₀ f z).Alike s.modeOf t.modeOf a a') :
    Under s₀ f z (s.enter f.param a) (t.enter z a') (rename f.param z) f.body where
  names_eq := rfl
  within := hT.within.enter hf a
  agree := by
    apply hT.agree.enter ha
    intro k hk
    exact .inr ⟨hk, hk⟩
  param := by
    intro y _ hp
    refine lookup?_alike ?_ ?_ ha
    · rw [lookup_enter, if_pos hp]
    · rw [lookup_enter, if_pos rfl]
  fresh := hz f hf
  runs := fun _ _ hg hh => .called hg hh

/-- The call of a function whose parameter hides that of `f` comes to the same body. -/
theorem enter_hiding (hT : Together s₀ f z s t ρ e) (hz : s₀.Unread z) (hh : s₀.Stores h)
    (hp : Text.lower h.param = Text.lower f.param)
    (ha : (comparison s₀ f z).Alike s.modeOf t.modeOf a a') :
    Apart s₀ f z (s.enter h.param a) (t.enter h.param a') id h.body where
  names_eq := rfl
  within := hT.within.enter hh a
  agree := by
    apply hT.agree.enter ha
    intro k hk
    by_cases hkp : k = Text.lower h.param
    · exact .inl ⟨hkp, hkp⟩
    · exact .inr ⟨⟨hp ▸ hkp, hk⟩, hkp, hkp⟩
  fresh := hz h hh

end Together

variable {g : String} {h : UserFunction} {a a' : Value}

/-- A call from outside of `f` comes to the same body. -/
theorem Apart.enter (hA : Apart s₀ f z s t ρ e) (hz : s₀.Unread z) (hh : s₀.Stores h)
    (ha : (comparison s₀ f z).Alike s.modeOf t.modeOf a a') :
    Apart s₀ f z (s.enter h.param a) (t.enter h.param a') id h.body where
  names_eq := rfl
  within := hA.within.enter hh a
  agree := hA.agree.enter_same ha _
  fresh := hz h hh

/-- A call from within `f` comes to a body that does not read the old parameter. -/
theorem Under.enter (hU : Under s₀ f z s t ρ (.call g e)) (hz : s₀.Unread z)
    (hk : s₀.KeepsParam f) (hg : s₀.MayCall g h) (hp : Text.lower h.param ≠ Text.lower f.param)
    (ha : (comparison s₀ f z).Alike s.modeOf t.modeOf a a') :
    h.body = h.body.mapNames (rename f.param z) ∧
      Under s₀ f z (s.enter h.param a) (t.enter h.param a') (rename f.param z) h.body := by
  have hcall : (Expr.call g e).calls g = true := by simp [Expr.calls]
  have hr := hU.runs g h hcall hg
  have hunread := hk h hr hp
  constructor
  · refine (Expr.mapNames_eq_self fun y hy => ?_).symm
    rw [rename, if_neg (hunread y hy)]
  · exact {
      names_eq := rfl
      within := hU.within.enter hr.stores a
      agree := hU.agree.enter_same ha _
      param := fun y hy hp => absurd hp (hunread y hy)
      fresh := hz h hr.stores
      runs := fun _ _ hc hh => .through hr hp hc hh }

/-- The two runs stay together. -/
theorem simulation (hz : s₀.Unread z) (hk : s₀.KeepsParam f) :
    Simulation (comparison s₀ f z) (Together s₀ f z) where
  part hd h := h.imp (Apart.part hd) (Under.part hd)
  absent _ := trivial
  strict _ hs := hs.elim
  var h := h.lookup? (Expr.reads_var _)
  call h := h.lookup? (Expr.reads_call _ _)
  body {s t ρ g e h h' a a'} hT hg _ hh ha := by
    obtain ⟨hs, rfl | ⟨rfl, rfl⟩⟩ := hh
    -- The callee is the same in both runs. From within `f` they go on with the new name, unless the
    -- callee's own parameter hides the old one: then the old name has one value again.
    · have hself : h'.body = h'.body.mapNames id := (Expr.mapNames_id _).symm
      by_cases hp : Text.lower h'.param = Text.lower f.param
      · exact ⟨id, hself, .inl (hT.enter_hiding hz hs hp ha)⟩
      · rcases hT with hA | hU
        · exact ⟨id, hself, .inl (hA.enter hz hs ha)⟩
        · obtain ⟨hbody, hU'⟩ := hU.enter hz hk (hU.within.mayCall hg hs) hp ha
          exact ⟨_, hbody, .inr hU'⟩
    · exact ⟨_, rfl, .inr (hT.enter_renamed hz hs ha)⟩

end Renaming

namespace Scope
open Renaming
variable {s t : Scope} {f : UserFunction} {z : String} {e : Expr}

/-- Names are found in the same places of both scopes. -/
theorem lookup_forall₂ {R V : Value → Value → Prop} {bs bs' : List (String × Value)}
    (h : List.Forall₂ (fun b b' => b'.1 = b.1 ∧ R b.2 b'.2) bs bs')
    (hV : ∀ b ∈ bs, ∀ w, R b.2 w → V b.2 w) (k : String) :
    Option.Rel V (bs.lookup k) (bs'.lookup k) := by
  induction h with
  | nil => exact .none
  | @cons b b' bs bs' hb _ ih =>
    obtain ⟨key, v⟩ := b
    obtain ⟨key', v'⟩ := b'
    obtain ⟨rfl, hv⟩ := hb
    obtain ⟨hself, hrest⟩ := List.forall_mem_cons.mp hV
    rw [lookup_cons, lookup_cons]
    split
    · exact .some (hself v' hv)
    · exact ih hrest

/-- Before the first call the two runs are together. -/
theorem Renamed.apart (h : Renamed f z s t)
    (he : ∀ y, e.reads y = true → Text.lower y ≠ Text.lower z) :
    Apart s f z s t id e where
  names_eq := rfl
  within := .refl s
  agree := by
    have hmode : s.modeOf = t.modeOf := by
      funext home
      cases home with
      | call => rfl
      | session => exact h.mode_eq.symm
    constructor
    · intro k _
      refine lookup_forall₂ h.bindings ?_ k
      intro b hb w hw
      obtain ⟨key, v⟩ := b
      rcases hw with rfl | ⟨rfl, rfl⟩
      · cases w with
        | rational | complex | matrix => exact .numeric rfl
        | function g => exact .function ⟨⟨key, hb⟩, .inl rfl⟩
        | builtin b home => exact .builtin b (by rw [hmode])
        | plain d => exact .plain d trivial
      · exact .function ⟨⟨key, hb⟩, .inr ⟨rfl, rfl⟩⟩
    · intro k b _ _ _
      rw [unit, unit, hmode, h.home_eq]
  fresh := he

/-- A session with `g(y) = b` and a function `f`. -/
def chained (b : Expr) (f : UserFunction) : Scope where
  bindings := [("g", .function ⟨"y", b, some "g"⟩), ("f", .function f)]
  mode := .radians
  home := .session

theorem chained_renamed (b : Expr) : Renamed f z (chained b f) (chained b (f.renamed z)) :=
  ⟨rfl, rfl, .cons ⟨rfl, .inl rfl⟩ (.cons ⟨rfl, .inr ⟨rfl, rfl⟩⟩ .nil)⟩

theorem chained_stores {b : Expr} {h : UserFunction} (hh : (chained b f).Stores h) :
    h = ⟨"y", b, some "g"⟩ ∨ h = f := by
  obtain ⟨k, hk⟩ := hh
  simp only [chained, List.mem_cons, Prod.mk.injEq, Value.function.injEq, List.not_mem_nil,
    or_false] at hk
  exact hk.imp And.right And.right

/-- A new name for a parameter changes no numeric result, if no body and not the expression read the
new name, and if the functions that run within calls of `f` do not read its parameter. -/
theorem evalDeep_renamed_iff (s t : Scope) (f : UserFunction) (z : String) (e : Expr) (v : Value)
    (n : Nat) (h : Renamed f z s t) (hz : s.Unread z)
    (he : ∀ y, e.reads y = true → Text.lower y ≠ Text.lower z) (hk : s.KeepsParam f)
    (hv : isNumeric v = true) : evalDeep n s e = .ok v ↔ evalDeep n t e = .ok v := by
  have hm := (simulation hz hk).evalDeep_matches n (.inl (h.apart he))
  rw [Expr.mapNames_id] at hm
  generalize evalDeep n s e = x at hm ⊢
  generalize evalDeep n t e = y at hm ⊢
  cases hm with
  | error => simp
  | @ok a b hab =>
    constructor
    · intro ha
      cases ha
      rw [hab.eq_of_isNumeric hv]
    · intro hb
      cases hb
      rw [← hab.isNumeric_eq] at hv
      rw [hab.eq_of_isNumeric hv]

/-- `y * y` -/
def square : Expr :=
  .binary .mul (.var "y") (.var "y")

/-- `f(x) = g(x + 1) + X` -/
def shifted : UserFunction :=
  ⟨"x", .binary .add (.call "g" (.binary .add (.var "x") (.number "1"))) (.var "X"), some "f"⟩

theorem eq_of_reads_square {y : String} (h : square.reads y = true) : y = "y" := by
  simp only [square, Expr.reads, Expr.mentions, Expr.calls, Bool.or_eq_true, beq_iff_eq] at h
  grind

theorem eq_of_reads_shifted {y : String} (h : shifted.body.reads y = true) :
    y = "g" ∨ y = "x" ∨ y = "X" := by
  simp only [shifted, Expr.reads, Expr.mentions, Expr.calls, Bool.or_eq_true, beq_iff_eq] at h
  grind

theorem eq_of_reads_call {g t y : String} (h : (Expr.call g (.number t)).reads y = true) :
    y = g := by
  simp only [Expr.reads, Expr.mentions, Expr.calls, Bool.or_eq_true, beq_iff_eq] at h
  grind

/-- With `g(y) = y * y`, the parameter of `f(x) = g(x + 1) + X` may as well be called `z`. -/
theorem evalDeep_renamed_shifted :
    (Renamed shifted "z" (chained square shifted) (chained square (shifted.renamed "z")) ∧
      (chained square shifted).Unread "z" ∧ (chained square shifted).KeepsParam shifted ∧
      (chained square shifted).eval (.call "f" (.number "2")) = .ok (.rational 11)) ∧
    (chained square (shifted.renamed "z")).eval (.call "f" (.number "2")) =
      .ok (.rational 11) := by
  have hst := chained_renamed (f := shifted) (z := "z") square
  have hz : (chained square shifted).Unread "z" := by
    intro h hh y hy
    rcases chained_stores hh with rfl | rfl
    · rw [eq_of_reads_square hy]
      decide
    · rcases eq_of_reads_shifted hy with rfl | rfl | rfl <;> decide
  have hk : (chained square shifted).KeepsParam shifted := by
    intro h hr hp y hy
    rcases chained_stores hr.stores with rfl | rfl
    · rw [eq_of_reads_square hy]
      decide
    · exact absurd rfl hp
  have he (y : String) (hy : (Expr.call "f" (.number "2")).reads y = true) :
      Text.lower y ≠ Text.lower "z" := by
    rw [eq_of_reads_call hy]
    decide
  have hv : (chained square shifted).eval (.call "f" (.number "2")) = .ok (.rational 11) := by
    with_unfolding_all rfl
  exact ⟨⟨hst, hz, hk, hv⟩, (evalDeep_renamed_iff _ _ _ _ _ _ _ hst hz he hk rfl).mp hv⟩

/-- The name occurs, ignoring case, nowhere in the session. -/
structure Fresh (s : Scope) (z : String) : Prop where
  names : ∀ b ∈ s.bindings, b.1 ≠ Text.lower z
  params : ∀ h, s.Stores h → Text.lower h.param ≠ Text.lower z
  bodies : s.Unread z

/-- `x + y` -/
def captured : Expr :=
  .binary .add (.var "x") (.var "y")

/-- `f(p) = g(1)` -/
def constant (p : String) : UserFunction :=
  ⟨p, .call "g" (.number "1"), some "f"⟩

theorem constant_renamed : (constant "x").renamed "z" = constant "z" := by
  with_unfolding_all rfl

/-- With `g(y) = x + y`, it is `g` that reads the parameter of `f(x) = g(1)`, and `f(5)` has no
value once it is called `z`. -/
theorem eval_renamed_captured :
    (Renamed (constant "x") "z" (chained captured (constant "x"))
        (chained captured (constant "z")) ∧
      (chained captured (constant "x")).Fresh "z" ∧
      ∀ y, (Expr.call "f" (.number "5")).reads y = true → Text.lower y ≠ Text.lower "z") ∧
    (chained captured (constant "x")).eval (.call "f" (.number "5")) = .ok (.rational 6) ∧
    (chained captured (constant "z")).eval (.call "f" (.number "5")) =
      .error (.undefinedVariable "x") := by
  have hread (y : String) (hy : captured.reads y = true) : y = "x" ∨ y = "y" := by
    simp only [captured, Expr.reads, Expr.mentions, Expr.calls, Bool.or_eq_true, beq_iff_eq] at hy
    grind
  refine ⟨⟨?_, ⟨?_, ?_, ?_⟩, ?_⟩, ?_, ?_⟩
  · rw [← constant_renamed]
    exact chained_renamed captured
  · intro b hb
    simp only [chained, List.mem_cons, List.not_mem_nil, or_false] at hb
    rcases hb with rfl | rfl <;> decide
  · intro h hh
    rcases chained_stores hh with rfl | rfl <;> decide
  · intro h hh y hy
    rcases chained_stores hh with rfl | rfl
    · rcases hread y hy with rfl | rfl <;> decide
    · rw [eq_of_reads_call hy]
      decide
  · intro y hy
    rw [eq_of_reads_call hy]
    decide
  · with_unfolding_all rfl
  · with_unfolding_all rfl

end Scope
end Reckoner
