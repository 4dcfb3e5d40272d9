import Reckoner.Proofs.Simulation

namespace Reckoner
open Outcome Eval

namespace Scope

section Names
variable (bs : List (String × Value)) (e : Expr)

/-- The names in lower case that evaluating `e` may look up: those that occur in it, and those in
the bodies of the functions that are bound to such names. -/
inductive Uses : String → Prop where
  | read {y : String} (hy : e.reads y = true) : Uses (Text.lower y)
  | inBody {k y : String} {f : UserFunction} (hk : Uses k)
      (hf : bs.lookup k = some (.function f)) (hy : f.body.reads y = true) : Uses (Text.lower y)

/-- No function of angles is found by name when `e` is evaluated. -/
def FindsNoAngles : Prop :=
  ∀ k b, Uses bs e k → bs.lookup k = none → Builtin.ofName? k = some b → b.isAngular = false

/-- No name that evaluating `e` may look up is bound to one of the session's functions of angles. -/
def HoldsNoAngles : Prop :=
  ∀ k b, Uses bs e k → bs.lookup k = some (.builtin b .session) → b.isAngular = false

end Names
end Scope

/-- Functions are alike if they are the same and use only names of `K`. -/
def Comparison.within (K : String → Prop) : Comparison where
  functions f f' := f' = f ∧ ∀ y, f.body.reads y = true → K (Text.lower y)
  plain := True
  strict := True

namespace Scope.Agree
variable {K : String → Prop} {s t : Scope} {e : Expr}

/-- Evaluation comes to the same in scopes that agree on the names that it may look up. -/
theorem evalDeep_eq (h : Agree (Comparison.within K) K s t)
    (he : ∀ y, e.reads y = true → K (Text.lower y)) (n : Nat) :
    Value.bare <$> evalDeep n s e = Value.bare <$> evalDeep n t e := by
  have hpart {d e : Expr} (hd : d.Part e) (he : ∀ y, e.reads y = true → K (Text.lower y)) :
      ∀ y, d.reads y = true → K (Text.lower y) :=
    fun y hy => he y (hd.reads hy)
  have hsim := simulation (C := Comparison.within K) (K := K) hpart (fun _ => trivial)
    (fun he hy => he _ hy) id
  have hm := hsim.evalDeep_matches n ⟨rfl, he, h⟩
  rw [Expr.mapNames_id] at hm
  generalize evalDeep n s e = x at hm ⊢
  generalize evalDeep n t e = y at hm ⊢
  cases hm with
  | ok hv =>
    cases hv with
    | numeric | plain | builtin => rfl
    | function hf => rw [hf.1]
  | error herr => rw [herr trivial]

/-- Scopes with the same bindings agree if the builtin functions in use measure alike. -/
theorem of_bindings_eq (hb : t.bindings = s.bindings)
    (hheld : ∀ k b home, Uses s.bindings e k → s.bindings.lookup k = some (.builtin b home) →
      b.apply (s.modeOf home) = b.apply (t.modeOf home))
    (hfound : ∀ k b, Uses s.bindings e k → s.bindings.lookup k = none →
      Builtin.ofName? k = some b → b.apply s.unit = b.apply t.unit) :
    Agree (Comparison.within (Uses s.bindings e)) (Uses s.bindings e) s t := by
  refine ⟨?_, hfound⟩
  intro k hk
  rw [hb]
  cases hv : s.bindings.lookup k with
  | none => exact .none
  | some v =>
    apply Option.Rel.some
    cases v with
    | rational | complex | matrix => exact .numeric rfl
    | function f => exact .function ⟨rfl, fun y hy => .inBody hk hv hy⟩
    | builtin b home => exact .builtin b (hheld k b home hk hv)
    | plain d => exact .plain d trivial

end Scope.Agree

namespace Eval
open Scope
variable {s : Scope} {p : String} {v : Value} {e : Expr}

/-- Within a call a body comes to what it does in the caller's own scope, if the caller measures in
radians or no function of angles is found by name. -/
theorem evalDeep_enter_eq_bind
    (h : s.unit = .radians ∨ FindsNoAngles (s.bind p v).bindings e) (n : Nat) :
    Value.bare <$> evalDeep n (s.enter p v) e = Value.bare <$> evalDeep n (s.bind p v) e := by
  have hb : (s.bind p v).bindings = (s.enter p v).bindings := rfl
  refine (Agree.of_bindings_eq hb ?_ ?_).evalDeep_eq (fun y hy => .read hy) n
  · intro k b home _ _
    rfl
  · intro k b hk hnone hname
    rcases h with hrad | hfree
    · exact congrArg b.apply hrad.symm
    · exact apply_of_not_angular (hfree k b hk hnone hname) _ _

/-- Within a call a body comes to what it does in a session in radians, unless it uses a function
of angles that the session has bound to a name. -/
theorem evalDeep_enter_eq_radians (h : HoldsNoAngles (s.bind p v).bindings e) (n : Nat) :
    Value.bare <$> evalDeep n (s.enter p v) e =
      Value.bare <$> evalDeep n ({ s with mode := .radians }.bind p v) e := by
  have hb : ({ s with mode := .radians }.bind p v).bindings = (s.enter p v).bindings := rfl
  refine (Agree.of_bindings_eq hb ?_ ?_).evalDeep_eq (fun y hy => .read hy) n
  · intro k b home hk hbound
    cases home with
    | call => rfl
    | session => exact apply_of_not_angular (h k b hk hbound) _ _
  · intro k b _ _ _
    exact congrArg b.apply (Inline.modeOf_radians rfl _).symm

/-- The call of a user's function, when its argument has the value `v`, is the body's evaluation in
the scope of the call. -/
theorem evalDeep_call {g : String} {f : UserFunction} {n : Nat} (hf : s.function? g = some f)
    (hv : evalDeep (n + 1) s e = .ok v) :
    evalDeep (n + 1) s (.call g e) = evalDeep n (s.enter f.param v) f.body := by
  have hg := function?_eq_some.mp hf
  have harg : evalWith (evalDeep n) s e = .ok v := hv
  simp only [evalDeep, evalWith, harg, ok_bind, applyNamed, hg]

def inDegrees : Scope where
  bindings := [("f", .function ⟨"x", .call "sin" (.var "x"), some "f"⟩)]
  mode := .degrees
  home := .session

/-- A call comes to what the body of its function does, with the parameter bound to the argument, in
the caller's own scope, if the caller measures in radians or the body finds no function of angles by
name. In any unit it comes to what the body does in a session in radians, if no function of angles
that it uses has been bound to a name. -/
theorem call_settings (s : Scope) (g : String) (f : UserFunction) (e : Expr) (v : Value) (n : Nat)
    (hf : s.function? g = some f) (hv : evalDeep (n + 1) s e = .ok v) :
    (s.unit = .radians ∨ FindsNoAngles (s.bind f.param v).bindings f.body →
      Value.bare <$> evalDeep (n + 1) s (.call g e) =
        Value.bare <$> evalDeep n (s.bind f.param v) f.body) ∧
    (HoldsNoAngles (s.bind f.param v).bindings f.body →
      Value.bare <$> evalDeep (n + 1) s (.call g e) =
        Value.bare <$> evalDeep n ({ s with mode := .radians }.bind f.param v) f.body) := by
  rw [evalDeep_call hf hv]
  exact ⟨fun h => evalDeep_enter_eq_bind h n, fun h => evalDeep_enter_eq_radians h n⟩

theorem inDegrees_holdsNoAngles (v : Rat) (e : Expr) :
    HoldsNoAngles (inDegrees.bind "x" (.rational v)).bindings e := by
  intro k b _ hb
  have hmem := mem_of_lookup hb
  have hbs : (inDegrees.bind "x" (.rational v)).bindings =
      inDegrees.bindings ++ [("x", .rational v)] := by
    with_unfolding_all rfl
  rw [hbs] at hmem
  simp [inDegrees] at hmem

/-- In degrees `f(90)` measures in radians, where `sin(90)` measures in degrees. -/
theorem call_settings_in_degrees :
    (inDegrees.function? "f" = some ⟨"x", .call "sin" (.var "x"), some "f"⟩ ∧
      evalDeep 1000 inDegrees (.number "90") = .ok (.rational 90) ∧
      HoldsNoAngles (inDegrees.bind "x" (.rational 90)).bindings (.call "sin" (.var "x"))) ∧
    Value.bare <$> inDegrees.eval (.call "f" (.number "90")) =
      Value.bare <$> Builtin.sin.apply .radians (.rational 90) ∧
    inDegrees.eval (.call "sin" (.number "90")) = Builtin.sin.apply .degrees (.rational 90) := by
  have hf : inDegrees.function? "f" = some ⟨"x", .call "sin" (.var "x"), some "f"⟩ := by
    with_unfolding_all rfl
  have hv : evalDeep 1000 inDegrees (.number "90") = .ok (.rational 90) := by
    with_unfolding_all rfl
  have hh := inDegrees_holdsNoAngles 90 (.call "sin" (.var "x"))
  refine ⟨⟨hf, hv, hh⟩, ?_, ?_⟩
  · exact (call_settings inDegrees "f" _ _ _ 999 hf hv).2 hh
  · with_unfolding_all rfl

end Eval
end Reckoner
