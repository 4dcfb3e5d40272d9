import Mathlib.Data.List.Forall2
import Reckoner.Proofs.Kinds

namespace Reckoner
open Outcome Eval
open Inline (isNumeric)

structure Comparison where
  functions : UserFunction → UserFunction → Prop
  /-- Whether values may be plain data. -/
  plain : Prop
  /-- Whether errors have to be the same. -/
  strict : Prop

namespace Comparison

def Errors (C : Comparison) (err err' : Error) : Prop :=
  C.strict → err = err'

/-- Values that are alike, where builtin functions go by the units `u` in one run and `u'` in the
other. One function may stand for another, and a builtin function need only measure the same. -/
inductive Alike (C : Comparison) (u u' : Home → AngleMode) : Value → Value → Prop where
  | numeric {v : Value} (h : isNumeric v = true) : Alike C u u' v v
  | plain (d : Datum) (h : C.plain) : Alike C u u' (.plain d) (.plain d)
  | function {f f' : UserFunction} (h : C.functions f f') :
      Alike C u u' (.function f) (.function f')
  | builtin (b : Builtin) {home home' : Home} (h : b.apply (u home) = b.apply (u' home')) :
      Alike C u u' (.builtin b home) (.builtin b home')

namespace Alike
variable {C : Comparison} {u u' : Home → AngleMode} {a a' b b' v w : Value}

theorem outline_eq (h : C.Alike u u' v w) : v.outline = w.outline := by
  cases h <;> rfl

theorem plain_of_isPlain (h : C.Alike u u' v w) (hv : v.isPlain = true) : C.plain := by
  cases h with
  | numeric h =>
    cases v with
    | rational | complex | matrix => cases hv
    | function | builtin | plain => cases h
  | plain d h => exact h
  | function | builtin => cases hv

theorem eq_of_isNumeric (h : C.Alike u u' v w) (hv : isNumeric v = true) : v = w := by
  cases h with
  | numeric | plain => rfl
  | function | builtin => cases hv

theorem isNumeric_eq (h : C.Alike u u' v w) : isNumeric v = isNumeric w := by
  cases h <;> rfl

theorem isAbsent_eq (h : C.Alike u u' v w) : v.isAbsent = w.isAbsent := by
  cases h <;> rfl

/-- What a sign gives is alike to itself. -/
theorem of_results (ha : C.Alike u u' a a') (h : Value.Results a b v) : C.Alike u u' v v := by
  rcases h with h | ⟨hv, hpa, -⟩
  · exact .numeric h
  · cases v with
    | plain d => exact .plain d (ha.plain_of_isPlain hpa)
    | rational | complex | matrix | function | builtin => cases hv

/-- Signs do not look into functions, so alike operands come to the same. -/
theorem combine (op : BinOp) (ha : C.Alike u u' a a') (hb : C.Alike u u' b b') :
    Matches C.Errors (C.Alike u u') (Value.combine op a b) (Value.combine op a' b') := by
  rw [← Value.combine_outline op a' b', ← ha.outline_eq, ← hb.outline_eq, Value.combine_outline]
  exact .self (fun _ _ => rfl) fun v hv => ha.of_results (Value.combine_gives op a b v hv)

theorem negate (op : UnOp) (ha : C.Alike u u' a a') :
    Matches C.Errors (C.Alike u u') (negate op a) (negate op a') := by
  rw [← negate_outline op a', ← ha.outline_eq, negate_outline]
  exact .self (fun _ _ => rfl) fun v hv => ha.of_results (negate_gives op a v hv)

theorem apply (b : Builtin) {home home' : Home} (hb : b.apply (u home) = b.apply (u' home'))
    (ha : C.Alike u u' a a') :
    Matches C.Errors (C.Alike u u') (b.apply (u home) a) (b.apply (u' home') a') := by
  rw [← Builtin.apply_outline b _ a', ← ha.outline_eq, Builtin.apply_outline, hb]
  exact .self (fun _ _ => rfl) fun v hv => .numeric (Builtin.apply_gives b _ a v hv)

theorem elements (vs ws : List Value) (h : List.Forall₂ (C.Alike u u') vs ws) :
    vs.mapM element = ws.mapM element := by
  induction h with
  | nil => rfl
  | cons hvw _ ih =>
    rw [List.mapM_cons, List.mapM_cons, ih, ← element_outline, hvw.outline_eq, element_outline]

end Alike

end Comparison

def Scope.unit (s : Scope) : AngleMode :=
  s.modeOf s.home

/-- Two scopes in which the names of `K` come to alike values, also from within calls. -/
structure Scope.Agree (C : Comparison) (K : String → Prop) (s t : Scope) : Prop where
  bound : ∀ k, K k → Option.Rel (C.Alike s.modeOf t.modeOf) (s.bindings.lookup k)
    (t.bindings.lookup k)
  found : ∀ k b, K k → s.bindings.lookup k = none → Builtin.ofName? k = some b →
    b.apply s.unit = b.apply t.unit

namespace Scope
variable {C : Comparison} {K K' : String → Prop} {s t : Scope} {p p' : String} {a a' : Value}

theorem lookup?_of_bound {y : String} {v : Value}
    (h : s.bindings.lookup (Text.lower y) = some v) :
    s.lookup? y = if v.isAbsent then none else some v := by
  simp only [lookup?, h]

theorem lookup?_of_free {y : String} (h : s.bindings.lookup (Text.lower y) = none) :
    s.lookup? y = (Builtin.ofName? (Text.lower y)).map (fun b => .builtin b s.home) := by
  simp only [lookup?, h]

/-- Names that are bound to alike values come to alike values. -/
theorem lookup?_alike {y y' : String} (hy : s.bindings.lookup (Text.lower y) = some a)
    (hy' : t.bindings.lookup (Text.lower y') = some a') (ha : C.Alike s.modeOf t.modeOf a a') :
    Option.Rel (C.Alike s.modeOf t.modeOf) (s.lookup? y) (t.lookup? y') := by
  rw [lookup?_of_bound hy, lookup?_of_bound hy', ha.isAbsent_eq]
  split
  · exact .none
  · exact .some ha

/-- What a name is bound to in the scope of a call. -/
theorem lookup_enter (k : String) :
    (s.enter p a).bindings.lookup k =
      if k = Text.lower p then some a else s.bindings.lookup k :=
  lookup_set s.bindings

/-- Names that two scopes agree on come to alike values, builtin functions among them. -/
theorem Agree.lookup? (h : Agree C K s t) {y : String} (hy : K (Text.lower y)) :
    Option.Rel (C.Alike s.modeOf t.modeOf) (s.lookup? y) (t.lookup? y) := by
  have hbound := h.bound _ hy
  cases hs : s.bindings.lookup (Text.lower y) with
  | none =>
    cases ht : t.bindings.lookup (Text.lower y) with
    | some w =>
      rw [hs, ht] at hbound
      cases hbound
    | none =>
      rw [lookup?_of_free hs, lookup?_of_free ht]
      cases hb : Builtin.ofName? (Text.lower y) with
      | none => exact .none
      | some b => exact .some (.builtin b (h.found _ b hy hs hb))
  | some v =>
    cases ht : t.bindings.lookup (Text.lower y) with
    | none =>
      rw [hs, ht] at hbound
      cases hbound
    | some w =>
      rw [hs, ht] at hbound
      cases hbound with
      | some hvw => exact lookup?_alike hs ht hvw

/-- Scopes of calls agree on a name if it is the parameter in both, or neither is the parameter in
one of them and they agreed before. -/
theorem Agree.enter (h : Agree C K s t) (ha : C.Alike s.modeOf t.modeOf a a')
    (hK : ∀ k, K' k → (k = Text.lower p ∧ k = Text.lower p') ∨
      (K k ∧ k ≠ Text.lower p ∧ k ≠ Text.lower p')) :
    Agree C K' (s.enter p a) (t.enter p' a') := by
  constructor
  · intro k hk
    rw [lookup_enter, lookup_enter]
    rcases hK k hk with ⟨hp, hp'⟩ | ⟨hk, hp, hp'⟩
    · rw [if_pos hp, if_pos hp']
      exact .some ha
    · rw [if_neg hp, if_neg hp']
      exact h.bound k hk
  · intro k b _ _ _
    rfl

/-- Scopes in which the same parameter is bound agree where they did before. -/
theorem Agree.enter_same (h : Agree C K s t) (ha : C.Alike s.modeOf t.modeOf a a') (p : String) :
    Agree C K (s.enter p a) (t.enter p a') := by
  apply h.enter ha
  intro k hk
  by_cases hp : k = Text.lower p
  · exact .inl ⟨hp, hp⟩
  · exact .inr ⟨hk, hp, hp⟩

end Scope

/-- Runs that keep step: `I s t ρ e` says that they have come to `e` in `s`, and in `t` to `e` with
its names changed by `ρ`. -/
structure Simulation (C : Comparison) (I : Scope → Scope → (String → String) → Expr → Prop) :
    Prop where
  part : ∀ {s t ρ d e}, Expr.Part d e → I s t ρ e → I s t ρ d
  absent : ∀ {s t ρ}, I s t ρ .absent → C.plain
  strict : ∀ {s t ρ e}, I s t ρ e → C.strict → ∀ y, ρ y = y
  var : ∀ {s t ρ y}, I s t ρ (.var y) →
    Option.Rel (C.Alike s.modeOf t.modeOf) (s.lookup? y) (t.lookup? (ρ y))
  call : ∀ {s t ρ g e}, I s t ρ (.call g e) →
    Option.Rel (C.Alike s.modeOf t.modeOf) (s.lookup? g) (t.lookup? (ρ g))
  body : ∀ {s t ρ g e f f' a a'}, I s t ρ (.call g e) → s.lookup? g = some (.function f) →
    t.lookup? (ρ g) = some (.function f') → C.functions f f' → C.Alike s.modeOf t.modeOf a a' →
    ∃ ρ', f'.body = f.body.mapNames ρ' ∧ I (s.enter f.param a) (t.enter f'.param a') ρ' f.body

namespace Simulation
variable {C : Comparison} {I : Scope → Scope → (String → String) → Expr → Prop}
  {run run' : Scope → Expr → Except Error Value} {s t : Scope} {ρ : String → String} {e : Expr}

/-- A call keeps step if the bodies of the functions do. -/
theorem applyNamed_matches (hI : Simulation C I) {g : String} {a a' : Value}
    (h : I s t ρ (.call g e)) (ha : C.Alike s.modeOf t.modeOf a a')
    (hrun : ∀ {s t ρ e}, I s t ρ e →
      Matches C.Errors (C.Alike s.modeOf t.modeOf) (run s e) (run' t (e.mapNames ρ))) :
    Matches C.Errors (C.Alike s.modeOf t.modeOf) (applyNamed run s g a)
      (applyNamed run' t (ρ g) a') := by
  have hname (hs : C.strict) : ρ g = g := hI.strict h hs g
  have hg := hI.call h
  unfold applyNamed
  generalize hl : s.lookup? g = l at hg
  generalize hl' : t.lookup? (ρ g) = l' at hg
  cases hg with
  | none => exact .error fun hs => by rw [hname hs]
  | @some v w hv =>
    cases hv with
    | numeric hv =>
      cases v with
      | rational | complex | matrix => exact .error fun hs => by rw [hname hs]
      | function | builtin | plain => cases hv
    | plain d => exact .error fun hs => by rw [hname hs]
    | function hf =>
      obtain ⟨ρ', hbody, hI'⟩ := hI.body h hl hl' hf ha
      simp only [hbody]
      exact hrun hI'
    | builtin b hb => exact ha.apply b hb

section Rows
variable {E : Error → Error → Prop} {V : Value → Value → Prop}

theorem evalRow_matches {r r' : List Expr}
    (h : List.Forall₂ (fun e e' => Matches E V (evalWith run s e) (evalWith run' t e')) r r') :
    Matches E (List.Forall₂ V) (evalRow run s r) (evalRow run' t r') := by
  induction h with
  | nil => exact .ok .nil
  | cons he _ ih => exact he.bind fun v w hvw => ih.bind fun vs ws hs => .ok (.cons hvw hs)

theorem evalRows_matches {rows rows' : List (List Expr)} (hE : ∀ err, E err err)
    (hV : ∀ vs ws, List.Forall₂ V vs ws → vs.mapM element = ws.mapM element)
    (h : List.Forall₂ (List.Forall₂ fun e e' =>
      Matches E V (evalWith run s e) (evalWith run' t e')) rows rows') :
    Matches E Eq (evalRows run s rows) (evalRows run' t rows') := by
  induction h with
  | nil => exact .ok rfl
  | cons hr _ ih =>
    refine (evalRow_matches hr).bind fun vs ws hs => ?_
    rw [hV vs ws hs]
    refine (Matches.self hE fun _ _ => rfl : Matches E Eq _ _).bind fun qs _ hq => ?_
    subst hq
    refine ih.bind fun rows _ hrows => ?_
    subst hrows
    exact .ok rfl

end Rows

/-- Runs that keep step come to matching outcomes. -/
theorem evalDeep_matches (hI : Simulation C I) (n : Nat) (h : I s t ρ e) :
    Matches C.Errors (C.Alike s.modeOf t.modeOf) (evalDeep n s e)
      (evalDeep n t (e.mapNames ρ)) := by
  have hE (err : Error) : C.Errors err err := fun _ => rfl
  -- Outside, on the depth of calls; inside, on the expression, whose parts are as deep.
  induction n generalizing s t ρ e with
  | zero => exact .error (hE _)
  | succ n ihn =>
    induction e with
    | absent => exact .ok (.plain _ (hI.absent h))
    | number t =>
      refine .self hE fun v hv => ?_
      obtain ⟨q, -, rfl⟩ := map_eq_ok.mp hv
      exact .numeric rfl
    | var y =>
      have hy := hI.var h
      simp only [evalDeep, evalWith, Expr.mapNames]
      generalize s.lookup? y = l at hy
      generalize t.lookup? (ρ y) = l' at hy
      cases hy with
      | none => exact .error fun hs => by rw [hI.strict h hs y]
      | some hv => exact .ok hv
    | imaginary => exact .ok (.numeric rfl)
    | unary op e ih => exact (ih (hI.part (.unary op e) h)).bind fun a a' ha => ha.negate op
    | binary op l r ihl ihr =>
      exact (ihl (hI.part (.left op l r) h)).bind fun a a' ha =>
        (ihr (hI.part (.right op l r) h)).bind fun b b' hb => ha.combine op hb
    | call g e ih =>
      exact (ih (hI.part (.arg g e) h)).bind fun a a' ha => hI.applyNamed_matches h ha ihn
    | matrix rows ih =>
      rw [Expr.mapNames, Expr.mapNamesRows_eq]
      have hparts : List.Forall₂ (List.Forall₂ fun e e' => Matches C.Errors
          (C.Alike s.modeOf t.modeOf) (evalDeep (n + 1) s e) (evalDeep (n + 1) t e'))
          rows (rows.map (List.map (Expr.mapNames ρ))) := by
        refine List.forall₂_map_right_iff.mpr (List.forall₂_same.mpr fun r hr => ?_)
        refine List.forall₂_map_right_iff.mpr (List.forall₂_same.mpr fun e he => ?_)
        exact ih r hr e he (hI.part (.element hr he) h)
      refine (evalRows_matches hE Comparison.Alike.elements hparts).bind fun qs _ hq => ?_
      subst hq
      refine .self hE fun v hv => .numeric ?_
      unfold ofRows at hv
      split at hv <;> cases hv
      rfl
    | other d => exact .error (hE _)

end Simulation

namespace Scope.Agree
variable {C : Comparison} {K : String → Prop} {Q : Expr → Prop} {s t : Scope} {e : Expr}

/-- Runs of the same expression in scopes that agree on its names keep step, if a function is alike
to itself only. -/
theorem simulation (hpart : ∀ {d e : Expr}, d.Part e → Q e → Q d) (habsent : Q .absent → C.plain)
    (hreads : ∀ {e : Expr} {y : String}, Q e → e.reads y = true → K (Text.lower y))
    (hbody : ∀ {f f' : UserFunction}, C.functions f f' → f' = f ∧ Q f.body) :
    Simulation C fun s t ρ e => ρ = id ∧ Q e ∧ Agree C K s t where
  part hd h := ⟨h.1, hpart hd h.2.1, h.2.2⟩
  absent h := habsent h.2.1
  strict h _ y := congrFun h.1 y
  var {s t ρ y} h := by
    obtain ⟨rfl, he, hagree⟩ := h
    exact hagree.lookup? (hreads he (Expr.reads_var y))
  call {s t ρ g e} h := by
    obtain ⟨rfl, he, hagree⟩ := h
    exact hagree.lookup? (hreads he (Expr.reads_call g e))
  body {s t ρ g e f f' a a'} h _ _ hf ha := by
    obtain ⟨rfl, hQ⟩ := hbody hf
    exact ⟨id, (Expr.mapNames_id _).symm, rfl, hQ, h.2.2.enter_same ha _⟩

end Scope.Agree
end Reckoner
