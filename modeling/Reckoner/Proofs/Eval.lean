import Reckoner.Eval
import Reckoner.Proofs.Outcome
import Reckoner.Proofs.Scope

namespace Reckoner

def Builtin.isAngular : Builtin → Bool
  | .sin | .cos | .tan => true
  | _ => false

namespace Eval
open Outcome

section Bare
variable {a a' b b' v w : Value}

/-- Arithmetic does not see where a builtin function was looked up. -/
theorem combine_bare (op : BinOp) (a b : Value) :
    Value.combine op a.bare b.bare = Value.combine op a b := by
  cases op <;> cases a <;> cases b <;> rfl

theorem combine_congr (op : BinOp) (ha : a.bare = a'.bare) (hb : b.bare = b'.bare) :
    Value.combine op a b = Value.combine op a' b' := by
  rw [← combine_bare op a b, ha, hb, combine_bare]

theorem negate_bare (op : UnOp) (v : Value) : negate op v.bare = negate op v := by
  cases op <;> cases v <;> rfl

theorem negate_congr (op : UnOp) (h : v.bare = w.bare) : negate op v = negate op w := by
  rw [← negate_bare op v, h, negate_bare]

theorem apply_bare (f : Builtin) (mode : AngleMode) (v : Value) :
    f.apply mode v.bare = f.apply mode v := by
  cases f <;> cases v <;> rfl

theorem apply_congr (f : Builtin) (mode : AngleMode) (h : v.bare = w.bare) :
    f.apply mode v = f.apply mode w := by
  rw [← apply_bare f mode v, h, apply_bare]

/-- Only the functions of angles go by the unit of angles. -/
theorem apply_of_not_angular {f : Builtin} (hf : f.isAngular = false) (m m' : AngleMode) :
    f.apply m = f.apply m' := by
  cases f <;> first | rfl | cases hf

theorem element_bare (v : Value) : element v.bare = element v := by
  cases v <;> rfl

theorem elements_congr {vs ws : List Value} (h : vs.map Value.bare = ws.map Value.bare) :
    vs.mapM element = ws.mapM element := by
  have hbare (us : List Value) : (us.map Value.bare).mapM element = us.mapM element := by
    rw [List.mapM_map]
    congr 1
    funext v
    exact element_bare v
  rw [← hbare vs, h, hbare ws]

end Bare

/-- A call succeeds through the body of a user's function or through a builtin function. -/
theorem applyNamed_ok {run : Scope → Expr → Except Error Value} {t : Scope} {g : String}
    {a v : Value} (h : applyNamed run t g a = .ok v) :
    (∃ f, t.lookup? g = some (.function f) ∧ run (t.enter f.param a) f.body = .ok v) ∨
    (∃ b home, t.lookup? g = some (.builtin b home) ∧ b.apply (t.modeOf home) a = .ok v) := by
  unfold applyNamed at h
  split at h
  · cases h
  · exact .inl ⟨_, ‹_›, h⟩
  · exact .inr ⟨_, _, ‹_›, h⟩
  · cases h

section Depth
variable {run run' : Scope → Expr → Except Error Value} {s : Scope}

/-- A call comes to the same value if its body does. -/
theorem applyNamed_cut (h : ∀ s e, Cut (run s e) (run' s e)) (s : Scope) (g : String) (a : Value) :
    Cut (applyNamed run s g a) (applyNamed run' s g a) := by
  unfold applyNamed
  split
  · exact .refl _
  · exact h _ _
  · exact .refl _
  · exact .refl _

theorem evalRow_cut {r : List Expr} (ih : ∀ e ∈ r, Cut (evalWith run s e) (evalWith run' s e)) :
    Cut (evalRow run s r) (evalRow run' s r) := by
  induction r with
  | nil => exact .refl _
  | cons e es iht =>
    obtain ⟨he, hes⟩ := List.forall_mem_cons.mp ih
    exact he.bind fun v => (iht hes).bind fun vs => .refl _

theorem evalRows_cut {rows : List (List Expr)}
    (ih : ∀ r ∈ rows, ∀ e ∈ r, Cut (evalWith run s e) (evalWith run' s e)) :
    Cut (evalRows run s rows) (evalRows run' s rows) := by
  induction rows with
  | nil => exact .refl _
  | cons r rs iht =>
    obtain ⟨hr, hrs⟩ := List.forall_mem_cons.mp ih
    exact (evalRow_cut hr).bind fun vs => (Cut.refl _).bind fun qs =>
      (iht hrs).bind fun _ => .refl _

theorem evalWith_cut (h : ∀ s e, Cut (run s e) (run' s e)) (s : Scope) (e : Expr) :
    Cut (evalWith run s e) (evalWith run' s e) := by
  induction e with
  | absent | number | var | imaginary | other => exact .refl _
  | unary op e ih => exact ih.bind fun v => .refl _
  | binary op l r ihl ihr => exact ihl.bind fun a => ihr.bind fun b => .refl _
  | call g e ih => exact ih.bind fun a => applyNamed_cut h s g a
  | matrix rows ih => exact (evalRows_cut ih).bind fun qs => .refl _

/-- A value stays the value when calls may be nested deeper. -/
theorem evalDeep_cut {m n : Nat} (h : m ≤ n) (s : Scope) (e : Expr) :
    Cut (evalDeep m s e) (evalDeep n s e) := by
  induction m generalizing n s e with
  | zero => exact .inl rfl
  | succ m ih =>
    obtain ⟨n, rfl⟩ : ∃ k, n = k + 1 := ⟨n - 1, by omega⟩
    exact evalWith_cut (fun s e => ih (by omega) s e) s e

end Depth

end Eval
end Reckoner
