import Reckoner.Proofs.Expr
import Reckoner.Scope

namespace Reckoner

/-- The value without the home of a builtin function. -/
def Value.bare : Value → Value
  | .builtin b _ => .builtin b .session
  | v => v

namespace Scope
variable {s t : Scope} {x y p : String} {v w : Value}

theorem lookup_cons (k : String) (bs : List (String × Value)) :
    List.lookup y ((k, w) :: bs) = if y = k then some w else bs.lookup y := by
  rw [List.lookup_cons]
  by_cases h : y = k
  · simp [h]
  · have hb : (y == k) = false := beq_eq_false_iff_ne.mpr h
    simp [hb, h]

/-- Binding a name changes no other. -/
theorem lookup_set (bs : List (String × Value)) :
    (set x v bs).lookup y = if y = x then some v else bs.lookup y := by
  induction bs with
  | nil => simp [set, lookup_cons]
  | cons b bs ih =>
    obtain ⟨k, w⟩ := b
    by_cases hk : k = x
    · subst hk
      by_cases h : y = k <;> simp [set, lookup_cons, h]
    · by_cases h : y = k
      · subst h
        simp [set, hk]
      · simp [set, lookup_cons, hk, h, ih]

/-- The parameter stands for the argument. -/
theorem lookup?_enter_self (h : (s.enter p v).lookup? p = some w) : w = v := by
  simp only [lookup?, enter, bind, lookup_set, if_true] at h
  split at h
  · cases h
  · exact (Option.some.inj h).symm

/-- A call leaves every name but its parameter as it was, except that a builtin function is then
looked up from within a call. -/
theorem bare_lookup?_enter (h : Text.lower y ≠ Text.lower p) :
    ((s.enter p v).lookup? y).map Value.bare = (s.lookup? y).map Value.bare := by
  simp only [lookup?, enter, bind, lookup_set, h, if_false]
  cases s.bindings.lookup (Text.lower y) with
  | none => cases Builtin.ofName? (Text.lower y) <;> rfl
  | some w => rfl

theorem function?_eq_some {f : UserFunction} :
    s.function? x = some f ↔ s.lookup? x = some (.function f) := by
  unfold function?
  split <;> simp_all

theorem mem_of_lookup {bs : List (String × Value)} (h : bs.lookup y = some v) : (y, v) ∈ bs := by
  induction bs with
  | nil => cases h
  | cons b bs ih =>
    obtain ⟨k, w⟩ := b
    rw [lookup_cons] at h
    split at h
    · cases h
      simp_all
    · exact List.mem_cons_of_mem _ (ih h)

/-- A user's function is among the bindings. -/
theorem mem_of_function? {f : UserFunction} (h : s.function? x = some f) :
    (Text.lower x, .function f) ∈ s.bindings := by
  rw [function?_eq_some] at h
  unfold lookup? at h
  cases hb : s.bindings.lookup (Text.lower x) with
  | none =>
    simp only [hb] at h
    cases hn : Builtin.ofName? (Text.lower x) <;> simp [hn] at h
  | some w =>
    simp only [hb] at h
    split at h
    · cases h
    · cases h
      exact mem_of_lookup hb

def Defines (s : Scope) (f : UserFunction) : Prop :=
  ∃ name, s.function? name = some f

/-- The functions that evaluating `e` may call: those that are called in it, and those that are
called in their bodies. -/
inductive Reaches (s : Scope) (e : Expr) : UserFunction → Prop where
  | called {g : String} {f : UserFunction} (hg : e.calls g = true)
      (hf : s.function? g = some f) : Reaches s e f
  | inBody {g : String} {f f' : UserFunction} (h : Reaches s e f) (hg : f.body.calls g = true)
      (hf : s.function? g = some f') : Reaches s e f'

end Scope

section Functions
variable (R : UserFunction → Prop)

def IsParam (y : String) : Prop :=
  ∃ f, R f ∧ Text.lower f.param = Text.lower y

/-- No parameter hides a function that a body calls. -/
def CallsFree : Prop :=
  ∀ f, R f → ∀ g, f.body.calls g = true → ¬ IsParam R g

/-- No parameter hides a variable of a body, except for the body's own. -/
def CaptureFree : Prop :=
  ∀ f, R f → ∀ y, f.body.mentions y = true → y ≠ f.param → ¬ IsParam R y

/-- The bodies call no other user's functions. -/
def Scope.Closed (s : Scope) : Prop :=
  ∀ f, R f → ∀ g f', f.body.calls g = true → s.function? g = some f' → R f'

structure Scope.Within (s t : Scope) : Prop where
  mode_eq : t.mode = s.mode
  lookup?_eq : ∀ y, ¬ IsParam R y → (t.lookup? y).map Value.bare = (s.lookup? y).map Value.bare

end Functions

namespace Scope
variable {R : UserFunction → Prop} {s t : Scope}

theorem closed_defines (s : Scope) : s.Closed s.Defines :=
  fun _ _ g _ _ hf => ⟨g, hf⟩

theorem closed_reaches (s : Scope) (e : Expr) : s.Closed (s.Reaches e) :=
  fun _ h _ _ hg hf => .inBody h hg hf

theorem Within.refl (s : Scope) : s.Within R s :=
  ⟨rfl, fun _ _ => rfl⟩

/-- Calls within calls are calls within the session. -/
theorem Within.enter {f : UserFunction} (h : s.Within R t) (hf : R f) (v : Value) :
    s.Within R (t.enter f.param v) := by
  refine ⟨h.mode_eq, fun y hy => ?_⟩
  have hp : Text.lower y ≠ Text.lower f.param := fun he => hy ⟨f, hf, he.symm⟩
  rw [bare_lookup?_enter hp, h.lookup?_eq y hy]

end Scope
end Reckoner
