import Mathlib.Order.WellFounded
import Reckoner.Proofs.Inlining

namespace Reckoner

/-- What passes from all parts of an expression to the whole holds of every expression. -/
theorem Expr.parts_induct {P : Expr → Prop} (h : ∀ e, (∀ d, Part d e → P d) → P e) (e : Expr) :
    P e := by
  induction e with
  | absent | number | var | imaginary | other =>
    apply h
    intro d hd
    cases hd
  | unary op e ih =>
    apply h
    intro d hd
    cases hd
    exact ih
  | binary op l r ihl ihr =>
    apply h
    intro d hd
    cases hd with
    | left => exact ihl
    | right => exact ihr
  | call g a ih =>
    apply h
    intro d hd
    cases hd
    exact ih
  | matrix rows ih =>
    apply h
    intro d hd
    cases hd with
    | element hr hd => exact ih _ hr d hd

def Scope.Keeps (s : Scope) (e : Expr) : Prop :=
  ∀ g a, e = .call g a → s.function? g = none

namespace Scope

theorem keeps_unary (s : Scope) (op : UnOp) (e : Expr) : s.Keeps (.unary op e) := by
  intro g a h
  cases h

theorem keeps_binary (s : Scope) (op : BinOp) (l r : Expr) : s.Keeps (.binary op l r) := by
  intro g a h
  cases h

theorem keeps_matrix (s : Scope) (rows : List (List Expr)) : s.Keeps (.matrix rows) := by
  intro g a h
  cases h

theorem keeps_call {s : Scope} {g : String} (hg : s.function? g = none) (e : Expr) :
    s.Keeps (.call g e) := by
  intro g' a h
  cases h
  exact hg

/-- An expression is written out by its parts or by a body. -/
theorem keeps_or_call (s : Scope) (e : Expr) :
    s.Keeps e ∨ ∃ g a f, e = .call g a ∧ s.function? g = some f := by
  by_cases h : s.Keeps e
  · exact .inl h
  · simp only [Keeps, not_forall] at h
    obtain ⟨g, a, he, hg⟩ := h
    obtain ⟨f, hf⟩ := Option.ne_none_iff_exists'.mp hg
    exact .inr ⟨g, a, f, he, hf⟩

end Scope

namespace Inline
open Outcome

section Parts
variable {run : Expr → Except Error Expr} {s : Scope} {d e e' : Expr}

theorem inlineRow_eq_mapM (r : List Expr) : inlineRow run s r = r.mapM (inlineWith run s) := by
  induction r with
  | nil => rfl
  | cons e es ih => rw [inlineRow, ih, List.mapM_cons]

theorem inlineRows_eq_mapM (rows : List (List Expr)) :
    inlineRows run s rows = rows.mapM fun r => r.mapM (inlineWith run s) := by
  induction rows with
  | nil => rfl
  | cons r rs ih => rw [inlineRows, ih, inlineRow_eq_mapM, List.mapM_cons]

/-- The rows of a matrix are written out if all their elements are. -/
theorem inlineRows_ok_iff {rows : List (List Expr)} :
    (∃ rows', inlineRows run s rows = .ok rows') ↔
      ∀ r ∈ rows, ∀ e ∈ r, ∃ e', inlineWith run s e = .ok e' := by
  simp only [inlineRows_eq_mapM, exists_mapM_eq_ok]

/-- What is no call of a user's function is written out if its parts are. -/
theorem inlineWith_ok_iff (he : s.Keeps e) :
    (∃ e', inlineWith run s e = .ok e') ↔
      ∀ d, Expr.Part d e → ∃ d', inlineWith run s d = .ok d' := by
  cases e with
  | absent | number | var | imaginary | other =>
    refine ⟨fun _ d hd => ?_, fun _ => ⟨_, rfl⟩⟩
    cases hd
  | unary op e =>
    constructor
    · rintro ⟨_, h⟩ d hd
      obtain ⟨a, ha, -⟩ := map_eq_ok.mp h
      cases hd
      exact ⟨a, ha⟩
    · intro h
      obtain ⟨a, ha⟩ := h e (.unary op e)
      exact ⟨_, map_eq_ok.mpr ⟨a, ha, rfl⟩⟩
  | binary op l r =>
    constructor
    · rintro ⟨_, h⟩ d hd
      obtain ⟨a, ha, h⟩ := bind_eq_ok.mp h
      obtain ⟨b, hb, -⟩ := bind_eq_ok.mp h
      cases hd with
      | left => exact ⟨a, ha⟩
      | right => exact ⟨b, hb⟩
    · intro h
      obtain ⟨a, ha⟩ := h l (.left op l r)
      obtain ⟨b, hb⟩ := h r (.right op l r)
      exact ⟨_, bind_eq_ok.mpr ⟨a, ha, bind_eq_ok.mpr ⟨b, hb, rfl⟩⟩⟩
  | call g e =>
    simp only [inlineWith, he g e rfl]
    constructor
    · rintro ⟨_, h⟩ d hd
      obtain ⟨a, ha, -⟩ := map_eq_ok.mp h
      cases hd
      exact ⟨a, ha⟩
    · intro h
      obtain ⟨a, ha⟩ := h e (.arg g e)
      exact ⟨_, map_eq_ok.mpr ⟨a, ha, rfl⟩⟩
  | matrix rows =>
    constructor
    · rintro ⟨_, h⟩ d hd
      obtain ⟨rows', hrows, -⟩ := map_eq_ok.mp h
      cases hd with
      | element hr hd => exact inlineRows_ok_iff.mp ⟨rows', hrows⟩ _ hr d hd
    · intro h
      obtain ⟨rows', hrows⟩ := inlineRows_ok_iff.mpr fun r hr d hd => h d (.element hr hd)
      exact ⟨_, map_eq_ok.mpr ⟨rows', hrows, rfl⟩⟩

end Parts

section Errors
variable {E : Error → Prop} {run : Expr → Except Error Expr} {s : Scope}

theorem inlineWith_fails (h : ∀ e, Fails E (run e)) (e : Expr) :
    Fails E (inlineWith run s e) := by
  induction e with
  | absent | number | var | imaginary | other => exact fails_ok _
  | unary op e ih => exact fails_map.mpr ih
  | binary op l r ihl ihr => exact ihl.bind fun a => ihr.bind fun b => fails_ok _
  | call g e ih =>
    unfold inlineWith
    cases s.function? g with
    | none => exact fails_map.mpr ih
    | some f => exact h _
  | matrix rows ih =>
    rw [inlineWith, inlineRows_eq_mapM]
    exact fails_map.mpr (.mapM fun r hr => .mapM (ih r hr))

/-- Writing out fails in one way only. -/
theorem inlineDeep_fails (s : Scope) (n : Nat) (e : Expr) :
    Fails (· = .recursion) (inlineDeep s n e) := by
  induction n generalizing e with
  | zero => exact fails_error.mpr rfl
  | succ n ih => exact inlineWith_fails ih e

end Errors

/-- To write out the one expression the other one has to be written out: it is the body of one of
its outermost calls, with the argument in the place of the parameter. -/
inductive Opens (s : Scope) : Expr → Expr → Prop where
  | call {g : String} {a : Expr} {f : UserFunction} (hg : s.function? g = some f) :
      Opens s (.call g a) (Expr.subst f.param a f.body)
  | part {d e b : Expr} (hd : Expr.Part d e) (he : s.Keeps e) (h : Opens s d b) : Opens s e b

section Chains
variable {run : Expr → Except Error Expr} {s : Scope} {n : Nat} {d e e' : Expr}

/-- What is written out has the bodies of its outermost calls written out. -/
theorem Opens.run_ok (h : Opens s e d) (he : inlineWith run s e = .ok e') :
    ∃ d', run d = .ok d' := by
  induction h generalizing e' with
  | call hg =>
    simp only [inlineWith, hg] at he
    exact ⟨e', he⟩
  | part hd hk _ ih =>
    obtain ⟨d', hd'⟩ := (inlineWith_ok_iff hk).mp ⟨e', he⟩ _ hd
    exact ih hd'

/-- A depth that is enough bounds every chain of bodies. -/
theorem acc_of_inlineDeep (h : inlineDeep s n e = .ok e') : Acc (fun d e => Opens s e d) e := by
  induction n generalizing e e' with
  | zero => cases h
  | succ n ih =>
    constructor
    intro d hd
    obtain ⟨d', hd'⟩ := hd.run_ok h
    exact ih hd'

theorem exists_forall₂ {α β : Type} {R : α → β → Prop} {l : List α} (h : ∀ x ∈ l, ∃ y, R x y) :
    ∃ l', List.Forall₂ R l l' := by
  induction l with
  | nil => exact ⟨[], .nil⟩
  | cons x xs ih =>
    obtain ⟨⟨y, hy⟩, hxs⟩ := List.forall_mem_cons.mp h
    obtain ⟨ys, hys⟩ := ih hxs
    exact ⟨y :: ys, .cons hy hys⟩

theorem exists_inlines_of_parts (he : s.Keeps e)
    (h : ∀ d, Expr.Part d e → ∃ d', Inlines s d d') : ∃ e', Inlines s e e' := by
  cases e with
  | absent | number | var | imaginary | other => exact ⟨_, 0, fun _ _ => rfl⟩
  | unary op e =>
    obtain ⟨a, ha⟩ := h e (.unary op e)
    exact ⟨_, ha.unary op⟩
  | binary op l r =>
    obtain ⟨a, ha⟩ := h l (.left op l r)
    obtain ⟨b, hb⟩ := h r (.right op l r)
    exact ⟨_, ha.binary op hb⟩
  | call g e =>
    obtain ⟨a, ha⟩ := h e (.arg g e)
    exact ⟨_, ha.kept (he g e rfl)⟩
  | matrix rows =>
    obtain ⟨rows', hrows⟩ := exists_forall₂ fun r hr =>
      exists_forall₂ fun d hd => h d (.element hr hd)
    exact ⟨_, .matrix hrows⟩

/-- There are finitely many outermost calls, so one depth is enough for all of them. -/
theorem exists_inlines_of_opens (h : ∀ d, Opens s e d → ∃ d', Inlines s d d') :
    ∃ e', Inlines s e e' := by
  induction e using Expr.parts_induct with
  | h e ih =>
    rcases s.keeps_or_call e with he | ⟨g, a, f, rfl, hg⟩
    · apply exists_inlines_of_parts he
      intro d hd
      exact ih d hd fun b hb => h b (.part hd he hb)
    · obtain ⟨e', hbody⟩ := h _ (.call hg)
      exact ⟨e', hbody.writtenOut hg⟩

/-- Writing out comes to an end if and only if no chain of bodies goes on for ever. -/
theorem exists_inlines_iff_acc : (∃ e', Inlines s e e') ↔ Acc (fun d e => Opens s e d) e := by
  constructor
  · rintro ⟨e', m, hm⟩
    exact acc_of_inlineDeep (hm m le_rfl)
  · intro h
    induction h with
    | intro e _ ih => exact exists_inlines_of_opens ih

theorem inlineDeep_eq_recursion (h : ¬ Acc (fun d e => Opens s e d) e) (k : Nat) :
    inlineDeep s k e = .error .recursion := by
  cases hk : inlineDeep s k e with
  | ok e' => exact absurd (acc_of_inlineDeep hk) h
  | error err => rw [inlineDeep_fails s k e err hk]

end Chains

/-- The two programs that write out calls come to the same expression, or both go on for ever: then
there is an endless chain of bodies, and no depth is enough. Putting an argument in the place of a
parameter is the same in both. -/
theorem inline_eq_expand (s : Scope) (e : Expr) :
    ((∃ e' m, ∀ k, m ≤ k → inlineDeep s k e = .ok e' ∧ Equation.expandDeep s k e = .ok e') ∨
      (∃ bodies : Nat → Expr, bodies 0 = e ∧ ∀ n, Opens s (bodies n) (bodies (n + 1))) ∧
        ∀ k, inlineDeep s k e = .error .recursion ∧
          Equation.expandDeep s k e = .error .recursion) ∧
    s.inline e = Equation.expand s e ∧
    ∀ x r, Expr.subst x r e = Equation.replace x r e := by
  simp only [expandDeep_eq, and_self]
  refine ⟨?_, ?_, fun x r => Expr.subst_eq_bindVars x r e⟩
  · by_cases h : Acc (fun d e => Opens s e d) e
    · obtain ⟨e', m, hm⟩ := exists_inlines_iff_acc.mpr h
      refine .inl ⟨e', m + 1, fun k hk => ?_⟩
      obtain ⟨j, rfl⟩ : ∃ j, k = j + 1 := ⟨k - 1, by omega⟩
      exact hm j (by omega)
    · exact .inr ⟨not_acc_iff_exists_descending_chain.mp h, inlineDeep_eq_recursion h⟩
  · exact (expandDeep_eq s maxDepth e).symm

end Inline
end Reckoner
