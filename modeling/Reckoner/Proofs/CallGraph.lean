import Mathlib
import Reckoner.Proofs.Unfolding

namespace Reckoner

namespace Expr
variable {u : String → Bool} {d e : Expr}

mutual
/-- How deep calls of the names that `u` picks out are nested. -/
def nesting (u : String → Bool) : Expr → Nat
  | .unary _ e => nesting u e
  | .binary _ l r => max (nesting u l) (nesting u r)
  | .call g e => if u g then nesting u e + 1 else nesting u e
  | .matrix rows => nestingRows u rows
  | _ => 0

def nestingRow (u : String → Bool) : List Expr → Nat
  | [] => 0
  | e :: es => max (nesting u e) (nestingRow u es)

def nestingRows (u : String → Bool) : List (List Expr) → Nat
  | [] => 0
  | r :: rs => max (nestingRow u r) (nestingRows u rs)
end

theorem nesting_le_row {r : List Expr} (he : e ∈ r) : e.nesting u ≤ nestingRow u r := by
  induction r with
  | nil => cases he
  | cons d ds ih =>
    rw [nestingRow]
    rcases List.mem_cons.mp he with rfl | he
    · exact le_max_left _ _
    · exact (ih he).trans (le_max_right _ _)

theorem nestingRow_le_rows {rows : List (List Expr)} {r : List Expr} (hr : r ∈ rows) :
    nestingRow u r ≤ nestingRows u rows := by
  induction rows with
  | nil => cases hr
  | cons q qs ih =>
    rw [nestingRows]
    rcases List.mem_cons.mp hr with rfl | hr
    · exact le_max_left _ _
    · exact (ih hr).trans (le_max_right _ _)

theorem Part.nesting_le (h : Part d e) : d.nesting u ≤ e.nesting u := by
  cases h with
  | unary op e => exact le_rfl
  | left op l r => exact le_max_left _ _
  | right op l r => exact le_max_right _ _
  | arg g e =>
    rw [nesting]
    split
    · exact Nat.le_succ _
    · exact le_rfl
  | element hr he => exact (nesting_le_row he).trans (nestingRow_le_rows hr)

end Expr

namespace Scope
variable {s : Scope} {f g : UserFunction}

def functions (s : Scope) : List UserFunction :=
  s.bindings.filterMap fun b =>
    match b.2 with
    | .function f => some f
    | _ => none

def isFunction (s : Scope) (name : String) : Bool :=
  (s.function? name).isSome

theorem mem_functions {name : String} (h : s.function? name = some f) : f ∈ s.functions :=
  List.mem_filterMap.mpr ⟨_, mem_of_function? h, rfl⟩

/-- The body of the one function calls the other one. -/
def BodyCalls (s : Scope) (f g : UserFunction) : Prop :=
  ∃ name, f.body.calls name = true ∧ s.function? name = some g

/-- No function calls itself, not even by way of others. -/
def Acyclic (s : Scope) : Prop :=
  ∀ f, ¬ Relation.TransGen s.BodyCalls f f

/-- The functions that a body calls, itself or by way of others. -/
def calledFrom (s : Scope) (f : UserFunction) : Set UserFunction :=
  {g | Relation.TransGen s.BodyCalls f g}

theorem calledFrom_subset (s : Scope) (f : UserFunction) :
    s.calledFrom f ⊆ {g | g ∈ s.functions} := by
  intro g hg
  obtain ⟨_, -, name, -, hname⟩ := Relation.TransGen.tail'_iff.mp hg
  exact mem_functions hname

theorem finite_calledFrom (s : Scope) (f : UserFunction) : (s.calledFrom f).Finite :=
  s.functions.finite_toSet.subset (s.calledFrom_subset f)

/-- How many functions a body calls, itself or by way of others. -/
noncomputable def rank (s : Scope) (f : UserFunction) : Nat :=
  (s.calledFrom f).ncard

/-- A function has a rank above the ranks of those that its body calls. -/
theorem Acyclic.rank_lt (h : s.Acyclic) (hfg : s.BodyCalls f g) : s.rank g < s.rank f := by
  apply Set.ncard_lt_ncard _ (s.finite_calledFrom f)
  constructor
  · intro k hk
    exact Relation.TransGen.head hfg hk
  · -- The other function is called from the one, but not from itself.
    intro hsub
    exact h g (hsub (Relation.TransGen.single hfg))

/-- Ranks are below the number of functions. -/
theorem Acyclic.rank_lt_length (h : s.Acyclic) (hf : f ∈ s.functions) :
    s.rank f < s.functions.length := by
  classical
  have hsub : insert f (s.calledFrom f) ⊆ {g | g ∈ s.functions} :=
    Set.insert_subset hf (s.calledFrom_subset f)
  have hcard : (insert f (s.calledFrom f)).ncard = s.rank f + 1 :=
    Set.ncard_insert_of_notMem (h f) (s.finite_calledFrom f)
  have hall : {g | g ∈ s.functions}.ncard ≤ s.functions.length := by
    rw [← List.coe_toFinset, Set.ncard_coe_finset]
    exact s.functions.toFinset_card_le
  have hle := Set.ncard_le_ncard hsub s.functions.finite_toSet
  omega

/-- Functions can be told not to call themselves by a number that gets smaller with each call. -/
theorem acyclic_of_lt (r : UserFunction → Nat)
    (h : ∀ f g, s.Defines f → s.BodyCalls f g → r g < r f) : s.Acyclic := by
  have hdefines {f g : UserFunction} (hfg : s.BodyCalls f g) : s.Defines g := by
    obtain ⟨name, -, hname⟩ := hfg
    exact ⟨name, hname⟩
  have hlt {f g : UserFunction} (hf : s.Defines f) (hfg : Relation.TransGen s.BodyCalls f g) :
      s.Defines g ∧ r g < r f := by
    induction hfg with
    | single hfg => exact ⟨hdefines hfg, h _ _ hf hfg⟩
    | tail _ hgk ih => exact ⟨hdefines hgk, (h _ _ ih.1 hgk).trans ih.2⟩
  intro f hcycle
  obtain ⟨_, -, hlast⟩ := Relation.TransGen.tail'_iff.mp hcycle
  exact lt_irrefl _ (hlt (hdefines hlast) hcycle).2

/-- How deep the bodies of functions nest calls of functions. -/
def bodyNesting (s : Scope) : Nat :=
  (s.functions.map fun f => f.body.nesting s.isFunction).foldr max 0

theorem nesting_le_bodyNesting (hf : f ∈ s.functions) :
    f.body.nesting s.isFunction ≤ s.bodyNesting := by
  have hmem : f.body.nesting s.isFunction ∈ s.functions.map fun f => f.body.nesting s.isFunction :=
    List.mem_map_of_mem hf
  exact List.le_max_of_le hmem le_rfl

/-- How deep it goes at most to write out the calls of an expression, if no function calls
itself. -/
def unfoldingDepth (s : Scope) (e : Expr) : Nat :=
  e.nesting s.isFunction * ∑ i ∈ Finset.range s.functions.length, s.bodyNesting ^ i

end Scope

namespace Inline
open Outcome
variable {s : Scope} {n k : Nat} {g : String} {a b d e e' : Expr}

/-- Writing out comes to an end within `n` bodies inside each other. -/
def Ends (s : Scope) (n : Nat) (e : Expr) : Prop :=
  ∃ e', inlineDeep s (n + 1) e = .ok e'

theorem Ends.mono (h : Ends s n e) (hk : n ≤ k) : Ends s k e := by
  obtain ⟨e', he'⟩ := h
  exact ⟨e', (inlineDeep_cut (Nat.succ_le_succ hk) s e).eq_ok he'⟩

theorem ends_of_parts (he : s.Keeps e) (h : ∀ d, Expr.Part d e → Ends s n d) : Ends s n e :=
  (inlineWith_ok_iff he).mpr h

/-- A call ends one body deeper than what its body becomes. -/
theorem ends_call {f : UserFunction} (hg : s.function? g = some f)
    (h : Ends s n (Expr.subst f.param a f.body)) : Ends s (n + 1) (.call g a) := by
  obtain ⟨e', he'⟩ := h
  refine ⟨e', ?_⟩
  rw [inlineDeep]
  simpa only [inlineWith, hg] using he'

/-- A call of `g` goes at most `k` bodies deeper than its argument. -/
def Costs (s : Scope) (k : Nat) (g : String) : Prop :=
  ∀ a n, Ends s n a → Ends s (n + k) (.call g a)

/-- Nested calls add up, on top of what stands in the place of the variables. -/
theorem ends_bindVars {σ : String → Expr} (hσ : ∀ y, Ends s n (σ y))
    (hcalls : ∀ g, b.calls g = true → s.isFunction g = true → Costs s k g) :
    Ends s (n + b.nesting s.isFunction * k) (b.bindVars σ) := by
  have hpart {d e : Expr} (hd : Expr.Part d e) :
      n + d.nesting s.isFunction * k ≤ n + e.nesting s.isFunction * k :=
    Nat.add_le_add_left (Nat.mul_le_mul_right k hd.nesting_le) n
  -- A call of a function adds to the depth of its argument; elsewhere the deepest part counts.
  induction b with
  | absent | number | imaginary | other => exact ⟨_, rfl⟩
  | var y => exact (hσ y).mono (Nat.le_add_right n _)
  | unary op e ih =>
    apply ends_of_parts (s.keeps_unary op _)
    intro d hd
    cases hd
    exact ih hcalls
  | binary op l r ihl ihr =>
    apply ends_of_parts (s.keeps_binary op _ _)
    intro d hd
    cases hd with
    | left =>
      have hl := ihl fun g hg => hcalls g (Expr.Part.calls (.left op l r) hg)
      exact hl.mono (hpart (.left op l r))
    | right =>
      have hr := ihr fun g hg => hcalls g (Expr.Part.calls (.right op l r) hg)
      exact hr.mono (hpart (.right op l r))
  | call g e ih =>
    have he := ih fun g' hg => hcalls g' (Expr.Part.calls (.arg g e) hg)
    by_cases hg : s.isFunction g = true
    · have hcost := hcalls g (by simp [Expr.calls]) hg _ _ he
      rw [Expr.nesting, if_pos hg, Nat.add_mul, Nat.one_mul, ← Nat.add_assoc]
      exact hcost
    · have hnone : s.function? g = none := by simpa [Scope.isFunction] using hg
      apply ends_of_parts (Scope.keeps_call hnone _)
      intro d hd
      cases hd
      exact he.mono (hpart (.arg g e))
  | matrix rows ih =>
    rw [Expr.bindVars, Expr.bindVarsRows_eq]
    apply ends_of_parts (s.keeps_matrix _)
    intro d hd
    cases hd with
    | element hrow hd =>
      obtain ⟨r, hr, rfl⟩ := List.mem_map.mp hrow
      obtain ⟨e, he, rfl⟩ := List.mem_map.mp hd
      have hpart' : Expr.Part e (.matrix rows) := .element hr he
      have hends := ih r hr e he fun g hg => hcalls g (hpart'.calls hg)
      exact hends.mono (hpart hpart')

/-- An argument is written out in the places of the parameter, and whatever it calls adds to the
depth there. So what a call costs is bounded by the rank of the function alone. -/
theorem costs_of_rank_lt (hs : s.Acyclic) {f : UserFunction} (hg : s.function? g = some f)
    (hn : s.rank f < n) : Costs s (∑ i ∈ Finset.range n, s.bodyNesting ^ i) g := by
  induction n generalizing g f with
  | zero => omega
  | succ n ih =>
    intro a m ha
    -- The calls of the argument are written out inside those of the body, whose ranks are smaller.
    have hσ (y : String) : Ends s m (if y = f.param then a else .var y) := by
      split
      · exact ha
      · exact ⟨_, rfl⟩
    have hbody := ends_bindVars hσ fun g' hg' hfun => by
      obtain ⟨f', hf'⟩ := Option.isSome_iff_exists.mp hfun
      have hrank : s.rank f' < s.rank f := hs.rank_lt ⟨g', hg', hf'⟩
      exact ih hf' (by omega)
    rw [← Expr.subst_eq_bindVars] at hbody
    have hdepth : f.body.nesting s.isFunction ≤ s.bodyNesting :=
      Scope.nesting_le_bodyNesting (Scope.mem_functions hg)
    rw [geom_sum_succ, ← Nat.add_assoc]
    apply ends_call hg
    exact hbody.mono (Nat.add_le_add_left (Nat.mul_le_mul_right _ hdepth) m)

theorem ends_of_acyclic (hs : s.Acyclic) (e : Expr) : Ends s (s.unfoldingDepth e) e := by
  have hσ (y : String) : Ends s 0 (.var y) := ⟨_, rfl⟩
  have hends := ends_bindVars hσ fun g (_ : e.calls g = true) hfun => by
    obtain ⟨f, hf⟩ := Option.isSome_iff_exists.mp hfun
    exact costs_of_rank_lt hs hf (hs.rank_lt_length (Scope.mem_functions hf))
  rwa [Expr.bindVars_var, Nat.zero_add] at hends

section Results
variable {run : Expr → Except Error Expr}

def Flat (s : Scope) (e : Expr) : Prop :=
  ∀ g, e.calls g = true → s.function? g = none

theorem flat_iff : Flat s e ↔ s.Keeps e ∧ ∀ d, Expr.Part d e → Flat s d := by
  constructor
  · intro h
    refine ⟨?_, fun d hd g hg => h g (hd.calls hg)⟩
    rintro g a rfl
    exact h g (by simp [Expr.calls])
  · rintro ⟨hkeeps, hparts⟩ g hg
    cases e with
    | absent | number | var | imaginary | other => cases hg
    | unary op e => exact hparts e (.unary op e) g hg
    | binary op l r =>
      rcases Bool.or_eq_true_iff.mp hg with hg | hg
      · exact hparts l (.left op l r) g hg
      · exact hparts r (.right op l r) g hg
    | call g' e =>
      rcases Bool.or_eq_true_iff.mp hg with hg | hg
      · exact beq_iff_eq.mp hg ▸ hkeeps g' e rfl
      · exact hparts e (.arg g' e) g hg
    | matrix rows =>
      rw [Expr.calls, Expr.callsRows_eq] at hg
      obtain ⟨r, hr, hg⟩ := List.any_eq_true.mp hg
      obtain ⟨d, hd, hg⟩ := List.any_eq_true.mp hg
      exact hparts d (.element hr hd) g hg

theorem inlineWith_flat (h : ∀ e, Gives (Flat s) (run e)) (e : Expr) :
    Gives (Flat s) (inlineWith run s e) := by
  induction e with
  | absent | number | var | imaginary | other =>
    refine gives_ok.mpr fun g hg => ?_
    cases hg
  | unary op e ih => exact gives_map.mpr ih
  | binary op l r ihl ihr =>
    intro v hv
    obtain ⟨a, ha, hv⟩ := bind_eq_ok.mp hv
    obtain ⟨b, hb, hv⟩ := bind_eq_ok.mp hv
    cases hv
    intro g hg
    rcases Bool.or_eq_true_iff.mp hg with hg | hg
    · exact ihl a ha g hg
    · exact ihr b hb g hg
  | call g e ih =>
    unfold inlineWith
    cases hg : s.function? g with
    | some f => exact h _
    | none =>
      intro v hv
      obtain ⟨a, ha, rfl⟩ := map_eq_ok.mp hv
      refine flat_iff.mpr ⟨Scope.keeps_call hg a, fun d hd => ?_⟩
      cases hd
      exact ih a ha
  | matrix rows ih =>
    rw [inlineWith, inlineRows_eq_mapM]
    intro v hv
    obtain ⟨rows', hrows, rfl⟩ := map_eq_ok.mp hv
    have hflat := Gives.mapM (fun r hr => Gives.mapM (ih r hr)) rows' hrows
    refine flat_iff.mpr ⟨s.keeps_matrix rows', fun d hd => ?_⟩
    cases hd with
    | element hr hd => exact hflat _ hr d hd

/-- What is left has no more calls to be written out. -/
theorem inlineDeep_flat (s : Scope) (n : Nat) (e : Expr) : Gives (Flat s) (inlineDeep s n e) := by
  induction n generalizing e with
  | zero => exact gives_error _
  | succ n ih => exact inlineWith_flat ih e

/-- One call of a user's function, anywhere in the expression, is replaced by the body with the
argument in the place of the parameter. -/
inductive Unfolds (s : Scope) : Expr → Expr → Prop where
  | call {g : String} {f : UserFunction} (hg : s.function? g = some f) (a : Expr) :
      Unfolds s (.call g a) (Expr.subst f.param a f.body)
  | arg (g : String) {e e' : Expr} (h : Unfolds s e e') : Unfolds s (.call g e) (.call g e')
  | unary (op : UnOp) {e e' : Expr} (h : Unfolds s e e') : Unfolds s (.unary op e) (.unary op e')
  | left (op : BinOp) {l l' : Expr} (r : Expr) (h : Unfolds s l l') :
      Unfolds s (.binary op l r) (.binary op l' r)
  | right (op : BinOp) (l : Expr) {r r' : Expr} (h : Unfolds s r r') :
      Unfolds s (.binary op l r) (.binary op l r')
  | element (before : List (List Expr)) (es : List Expr) {e e' : Expr} (es' : List Expr)
      (after : List (List Expr)) (h : Unfolds s e e') :
      Unfolds s (.matrix (before ++ (es ++ e :: es') :: after))
        (.matrix (before ++ (es ++ e' :: es') :: after))

abbrev Unfolded (s : Scope) : Expr → Expr → Prop :=
  Relation.ReflTransGen (Unfolds s)

theorem Unfolded.inside {c : Expr → Expr} (hc : ∀ d d', Unfolds s d d' → Unfolds s (c d) (c d'))
    (h : Unfolded s e e') : Unfolded s (c e) (c e') := by
  induction h with
  | refl => exact .refl
  | tail _ hlast ih => exact ih.tail (hc _ _ hlast)

theorem Unfolded.binary {l l' r r' : Expr} (op : BinOp) (hl : Unfolded s l l')
    (hr : Unfolded s r r') : Unfolded s (.binary op l r) (.binary op l' r') := by
  have hleft : Unfolded s (.binary op l r) (.binary op l' r) :=
    Unfolded.inside (fun _ _ h => .left op r h) hl
  exact hleft.trans (Unfolded.inside (fun _ _ h => .right op l' h) hr)

/-- The elements of a row are unfolded from the first to the last. -/
theorem Unfolded.row (before : List (List Expr)) (es : List Expr) {fs fs' : List Expr}
    (after : List (List Expr)) (h : List.Forall₂ (Unfolded s) fs fs') :
    Unfolded s (.matrix (before ++ (es ++ fs) :: after))
      (.matrix (before ++ (es ++ fs') :: after)) := by
  induction h generalizing es with
  | nil => exact .refl
  | @cons f f' fs fs' hf _ ih =>
    have hfirst : Unfolded s (.matrix (before ++ (es ++ f :: fs) :: after))
        (.matrix (before ++ (es ++ f' :: fs) :: after)) :=
      Unfolded.inside (fun _ _ h => .element before es fs after h) hf
    have hrest := ih (es ++ [f'])
    rw [List.append_assoc, List.append_assoc] at hrest
    exact hfirst.trans hrest

theorem Unfolded.matrix (before : List (List Expr)) {rows rows' : List (List Expr)}
    (h : List.Forall₂ (List.Forall₂ (Unfolded s)) rows rows') :
    Unfolded s (.matrix (before ++ rows)) (.matrix (before ++ rows')) := by
  induction h generalizing before with
  | nil => exact .refl
  | @cons r r' rows rows' hr _ ih =>
    have hrest := ih (before ++ [r'])
    rw [List.append_assoc, List.append_assoc] at hrest
    exact (Unfolded.row before [] rows hr).trans hrest

theorem inlineWith_unfolded (h : ∀ e, Gives (Unfolded s e) (run e)) (e : Expr) :
    Gives (Unfolded s e) (inlineWith run s e) := by
  induction e with
  | absent | number | var | imaginary | other => exact gives_ok.mpr .refl
  | unary op e ih =>
    exact gives_map.mpr fun a ha => Unfolded.inside (fun _ _ h => .unary op h) (ih a ha)
  | binary op l r ihl ihr =>
    intro v hv
    obtain ⟨a, ha, hv⟩ := bind_eq_ok.mp hv
    obtain ⟨b, hb, hv⟩ := bind_eq_ok.mp hv
    cases hv
    exact .binary op (ihl a ha) (ihr b hb)
  | call g e ih =>
    unfold inlineWith
    cases hg : s.function? g with
    | some f => exact fun v hv => .head (.call hg e) (h _ v hv)
    | none => exact gives_map.mpr fun a ha => Unfolded.inside (fun _ _ h => .arg g h) (ih a ha)
  | matrix rows ih =>
    rw [inlineWith, inlineRows_eq_mapM]
    refine gives_map.mpr fun rows' hrows => ?_
    exact .matrix [] (Gives.forall₂_mapM (fun r hr => Gives.forall₂_mapM (ih r hr)) rows' hrows)

/-- What is left comes from the expression by replacing calls. -/
theorem inlineDeep_unfolded (s : Scope) (n : Nat) (e : Expr) :
    Gives (Unfolded s e) (inlineDeep s n e) := by
  induction n generalizing e with
  | zero => exact gives_error _
  | succ n ih => exact inlineWith_unfolded ih e

/-- Where there is no call to be written out, nothing changes. -/
theorem inlineWith_of_flat (h : Flat s e) : inlineWith run s e = .ok e := by
  induction e with
  | absent | number | var | imaginary | other => rfl
  | unary op e ih =>
    rw [inlineWith, ih ((flat_iff.mp h).2 e (.unary op e))]
    rfl
  | binary op l r ihl ihr =>
    rw [inlineWith, ihl ((flat_iff.mp h).2 l (.left op l r)),
      ihr ((flat_iff.mp h).2 r (.right op l r))]
    rfl
  | call g e ih =>
    rw [inlineWith, (flat_iff.mp h).1 g e rfl, ih ((flat_iff.mp h).2 e (.arg g e))]
    rfl
  | matrix rows ih =>
    have hrows : rows.mapM (fun r => r.mapM (inlineWith run s)) = .ok rows :=
      mapM_eq_self fun r hr => mapM_eq_self fun d hd =>
        ih r hr d hd ((flat_iff.mp h).2 d (.element hr hd))
    rw [inlineWith, inlineRows_eq_mapM, hrows]
    rfl

end Results

/-- If no function calls itself, not even by way of others, writing out the calls of an expression
comes to an end, at a depth that is bounded beforehand. The result comes from the expression by
replacing calls with bodies. No call of a user's function is left in it, so that nothing changes
when it is written out again. -/
theorem expandDeep_of_acyclic (s : Scope) (e : Expr) (h : s.Acyclic) :
    ∃ e', (∀ k, s.unfoldingDepth e < k → Equation.expandDeep s k e = .ok e') ∧
      (Equation.expand s e = .ok e' ∨
        Equation.expand s e = .error .recursion ∧ maxDepth ≤ s.unfoldingDepth e) ∧
      Unfolded s e e' ∧ (∀ g, e'.calls g = true → s.function? g = none) ∧
      (∀ k, 0 < k → Equation.expandDeep s k e' = .ok e') ∧ Equation.expand s e' = .ok e' := by
  simp only [Equation.expand, expandDeep_eq]
  obtain ⟨e', he'⟩ := ends_of_acyclic h e
  have hdeep (k : Nat) (hk : s.unfoldingDepth e < k) : inlineDeep s k e = .ok e' :=
    (inlineDeep_cut hk s e).eq_ok he'
  have hunfolded : Unfolded s e e' := inlineDeep_unfolded s _ e e' he'
  have hflat : Flat s e' := inlineDeep_flat s _ e e' he'
  have hself (k : Nat) (hk : 0 < k) : inlineDeep s k e' = .ok e' := by
    obtain ⟨j, rfl⟩ := Nat.exists_eq_succ_of_ne_zero hk.ne'
    exact inlineWith_of_flat hflat
  refine ⟨e', hdeep, ?_, hunfolded, hflat, hself, hself _ (by decide)⟩
  by_cases hk : s.unfoldingDepth e < maxDepth
  · exact .inl (hdeep _ hk)
  · have hle : maxDepth ≤ s.unfoldingDepth e := Nat.le_of_not_lt hk
    have hcut := inlineDeep_cut (Nat.le_succ_of_le hle) s e
    rw [he'] at hcut
    rcases hcut with hcut | hcut
    · exact .inr ⟨hcut, hle⟩
    · exact .inl hcut

theorem nested_acyclic : nested.Acyclic := by
  apply Scope.acyclic_of_lt fun f => if f.param = "y" then 1 else 0
  rintro f g ⟨name, hf⟩ ⟨callee, hcalls, hg⟩
  rcases nested_functions hf with rfl | rfl
  · cases hcalls
  · have hcallee : "f" = callee := by simpa [Expr.calls] using hcalls
    subst hcallee
    cases hg
    decide

/-- `t * t + a` -/
def squaredPlus (t : Expr) : Expr :=
  .binary .add (.binary .mul t t) (.var "a")

/-- `t * t + a - t` -/
def squaredLess (t : Expr) : Expr :=
  .binary .sub (squaredPlus t) t

/-- Calls nested in an argument and in a body, of functions in any case. -/
theorem expandDeep_of_acyclic_nested :
    let e := Expr.call "G" (.call "f" (.call "g" (.var "z")))
    let e' := squaredLess (squaredPlus (squaredLess (.var "z")))
    (nested.Acyclic ∧ nested.unfoldingDepth e = 6) ∧
    Equation.expandDeep nested 7 e = .ok e' ∧ Equation.expand nested e = .ok e' ∧
      Unfolded nested e e' ∧ (∀ g, e'.calls g = true → nested.function? g = none) ∧
      Equation.expand nested e' = .ok e' := by
  intro e e'
  have hdepth : nested.unfoldingDepth e = 6 := by decide +kernel
  have hresult : Equation.expandDeep nested 7 e = .ok e' := by with_unfolding_all rfl
  obtain ⟨d, hdeep, hlimit, hunfolded, hflat, -, hself⟩ :=
    expandDeep_of_acyclic nested e nested_acyclic
  rw [hdepth] at hdeep hlimit
  obtain rfl : e' = d := Except.ok.inj (hresult.symm.trans (hdeep 7 (by decide)))
  refine ⟨⟨nested_acyclic, hdepth⟩, hresult, ?_, hunfolded, hflat, hself⟩
  rcases hlimit with hlimit | ⟨-, hle⟩
  · exact hlimit
  · exact absurd hle (by decide)

end Inline
end Reckoner
