import Mathlib
import Reckoner.Proofs.Body
import Reckoner.Proofs.Session

namespace Reckoner
open Outcome

namespace Expr

/-- The operands of a nest of sums and differences, in the order of the source. -/
def summands : Expr → List Expr
  | .binary .add l r | .binary .sub l r => summands l ++ summands r
  | e => [e]

def terms (x : String) (e : Expr) : List Expr :=
  e.summands.filter (mentions x)

theorem terms_append {x : String} {e l r : Expr} (h : e.summands = l.summands ++ r.summands) :
    e.terms x = l.terms x ++ r.terms x := by
  rw [terms, h, List.filter_append, terms, terms]

/-- Where the parameter occurs in no sum or difference. -/
inductive IsSumFree (x : String) : Expr → Prop where
  | constant {e : Expr} (hm : e.mentions x = false) : IsSumFree x e
  | var : IsSumFree x (.var x)
  | unary (op : UnOp) {e : Expr} (he : IsSumFree x e) : IsSumFree x (.unary op e)
  | binary {op : BinOp} {l r : Expr} (hadd : op ≠ .add) (hsub : op ≠ .sub)
      (hl : IsSumFree x l) (hr : IsSumFree x r) : IsSumFree x (.binary op l r)
  | call (f : String) {e : Expr} (he : IsSumFree x e) : IsSumFree x (.call f e)
  | matrix {rows : List (List Expr)} (h : ∀ r ∈ rows, ∀ e ∈ r, IsSumFree x e) :
      IsSumFree x (.matrix rows)

end Expr

namespace Body
variable {s t : Scope} {x : String} {e l r : Expr} {f g : Sum}

namespace Sum

def texts (f : Sum) : List String :=
  f.parts.map (·.1)

/-- What a sum comes to by the values of its parts. -/
def value (f : Sum) (values : List Rat) : Rat :=
  f.constant + (List.zipWith (fun p v => if p.2 then -v else v) f.parts values).sum

theorem value_add {vs : List Rat} (h : f.parts.length = vs.length) (ws : List Rat) :
    (f.add g).value (vs ++ ws) = f.value vs + g.value ws := by
  simp only [value, add, List.zipWith_append h, List.sum_append]
  ring

theorem sum_turned (ps : List (String × Bool)) (ws : List Rat) :
    (List.zipWith (fun p v => if p.2 then -v else v) (ps.map fun p => (p.1, !p.2)) ws).sum =
      -(List.zipWith (fun p v => if p.2 then -v else v) ps ws).sum := by
  induction ps generalizing ws with
  | nil => simp
  | cons p ps ih =>
    cases ws with
    | nil => simp
    | cons w ws =>
      simp only [List.map_cons, List.zipWith_cons_cons, List.sum_cons, ih]
      cases p.2 <;> simp <;> ring

/-- A difference turns the signs of its right side. -/
theorem value_sub {vs : List Rat} (h : f.parts.length = vs.length) (ws : List Rat) :
    (f.sub g).value (vs ++ ws) = f.value vs - g.value ws := by
  simp only [value, sub, List.zipWith_append h, List.sum_append, sum_turned]
  ring

/-- The sum has a part for each summand with the parameter. Where the other summands keep their
values, it comes to the value of the whole. -/
structure Means (s : Scope) (x : String) (e : Expr) (f : Sum) : Prop where
  length_eq : f.parts.length = (e.terms x).length
  eval_eq {t : Scope} (hkept : ∀ a ∈ e.summands, a.mentions x = false → t.eval a = s.eval a)
    {values : List Rat}
    (hvalues : List.Forall₂ (fun v a => t.eval a = .ok (.rational v)) values (e.terms x)) :
    t.eval e = .ok (.rational (f.value values))

end Sum

theorem eval_binary {op : BinOp} {a b : Value} (hl : t.eval l = .ok a) (hr : t.eval r = .ok b) :
    t.eval (.binary op l r) = Value.combine op a b := by
  have hl' : Eval.evalWith (Eval.evalDeep 999) t l = .ok a := hl
  have hr' : Eval.evalWith (Eval.evalDeep 999) t r = .ok b := hr
  show Eval.evalWith (Eval.evalDeep 999) t _ = _
  rw [Eval.evalWith, hl', hr']
  rfl

/-- Two sums put together by an operation that the values follow. -/
theorem Sum.Means.combine {op : BinOp} {h : Sum} (hl : f.Means s x l) (hr : g.Means s x r)
    (hsummands : (Expr.binary op l r).summands = l.summands ++ r.summands)
    (hlength : h.parts.length = f.parts.length + g.parts.length)
    (hvalue : ∀ vs ws, f.parts.length = vs.length →
      Value.combine op (.rational (f.value vs)) (.rational (g.value ws)) =
        .ok (.rational (h.value (vs ++ ws)))) :
    h.Means s x (.binary op l r) := by
  have hterms := Expr.terms_append (x := x) hsummands
  refine ⟨?_, fun {t} hkept values hvalues => ?_⟩
  · rw [hlength, hl.length_eq, hr.length_eq, hterms, List.length_append]
  · rw [hsummands, List.forall_mem_append] at hkept
    rw [hterms] at hvalues
    -- The first values are those of the summands on the left.
    have hvs := List.forall₂_take_append _ _ _ hvalues
    have hws := List.forall₂_drop_append _ _ _ hvalues
    rw [eval_binary (hl.eval_eq hkept.1 hvs) (hr.eval_eq hkept.2 hws),
      hvalue _ _ (hl.length_eq.trans hvs.length_eq.symm), List.take_append_drop]

theorem Sum.Means.add (hl : f.Means s x l) (hr : g.Means s x r) :
    (f.add g).Means s x (.binary .add l r) := by
  refine hl.combine hr rfl List.length_append fun vs ws hlength => ?_
  rw [Sum.value_add hlength]
  rfl

theorem Sum.Means.sub (hl : f.Means s x l) (hr : g.Means s x r) :
    (f.sub g).Means s x (.binary .sub l r) := by
  refine hl.combine hr rfl ?_ fun vs ws hlength => ?_
  · rw [Sum.sub, List.length_append, List.length_map]
  · rw [Sum.value_sub hlength]
    rfl

/-- What is neither a sum nor a difference is taken as it is. -/
theorem sum_eq_leaf (hadd : ∀ l r, e = .binary .add l r → False)
    (hsub : ∀ l r, e = .binary .sub l r → False) :
    (render s x e).sum = leaf s x e (render s x e).text := by
  cases e with
  | binary op l r =>
    have hop : ¬(op = .add ∨ op = .sub) := by
      rintro (rfl | rfl)
      · exact hadd l r rfl
      · exact hsub l r rfl
    simp only [render, if_neg hop]
  | _ => simp only [render]

theorem sum_binary {op : BinOp} (hop : op = .add ∨ op = .sub) :
    (render s x (.binary op l r)).sum = sumOf op (render s x l).sum (render s x r).sum := by
  simp [render, hop]

/-- Texts are put side by side, whatever their signs. -/
theorem texts_sumOf (op : BinOp) (a b : Except Error Sum) :
    Sum.texts <$> sumOf op a b = do
      let ts ← Sum.texts <$> a
      let us ← Sum.texts <$> b
      return ts ++ us := by
  cases a with
  | error err => rfl
  | ok f =>
    cases b with
    | error err => rfl
    | ok g =>
      by_cases hop : op = .sub <;> simp [sumOf, hop, Sum.texts, Sum.sub, Sum.add]

theorem sumOf_eq_ok {op : BinOp} {a b : Except Error Sum} {h : Sum} (heq : sumOf op a b = .ok h) :
    ∃ f g, a = .ok f ∧ b = .ok g ∧ h = if op = .sub then f.sub g else f.add g := by
  obtain ⟨f, hf, heq⟩ := bind_eq_ok.mp heq
  obtain ⟨g, hg, heq⟩ := bind_eq_ok.mp heq
  exact ⟨f, g, hf, hg, (Except.ok.inj heq).symm⟩

/-- A summand without the parameter goes into the constant. -/
theorem leaf_constant {q : Rat} (text : Except Error String) (hm : e.mentions x = false)
    (hq : s.eval e = .ok (.rational q)) : leaf s x e text = .ok ⟨[], q⟩ := by
  have hc : constant? s e = some q := by rw [constant?, hq]
  cases e with
  | absent => cases hq
  | _ => simp [leaf, hm, hc]

section Leaf
variable (h : e.summands = [e])
include h

theorem terms_of_mentions (hm : e.mentions x = true) : e.terms x = [e] := by
  simp [Expr.terms, h, hm]

theorem terms_of_not_mentions (hm : e.mentions x = false) : e.terms x = [] := by
  simp [Expr.terms, h, hm]

theorem Sum.Means.ofPart (text : String) (hm : e.mentions x = true) :
    (Sum.ofPart text).Means s x e := by
  have hterms := terms_of_mentions h hm
  refine ⟨by rw [hterms]; rfl, fun {t} _ values hvalues => ?_⟩
  rw [hterms] at hvalues
  obtain ⟨v, vs, hv, hvs, rfl⟩ := List.forall₂_cons_right_iff.mp hvalues
  obtain rfl := List.forall₂_nil_right_iff.mp hvs
  rw [hv]
  simp [Sum.value, Sum.ofPart]

theorem Sum.Means.ofConstant {q : Rat} (hm : e.mentions x = false)
    (hq : s.eval e = .ok (.rational q)) : (Sum.mk [] q).Means s x e := by
  have hterms := terms_of_not_mentions h hm
  refine ⟨by rw [hterms]; rfl, fun {t} hkept values hvalues => ?_⟩
  rw [hkept e (h ▸ List.mem_singleton_self e) hm, hq]
  simp [Sum.value]

end Leaf

def HasConstants (s : Scope) (x : String) (e : Expr) : Prop :=
  ∀ a ∈ e.summands, a.mentions x = false → ∃ q, s.eval a = .ok (.rational q)

/-- The summands with the parameter are kept as texts, in the order of the source. -/
theorem texts_sum (hconstants : HasConstants s x e) :
    Sum.texts <$> (render s x e).sum = (e.terms x).mapM (fun a => (render s x a).text) := by
  induction e using Expr.summands.induct with
  | case1 l r ihl ihr =>
    obtain ⟨hl, hr⟩ := List.forall_mem_append.mp hconstants
    rw [sum_binary (.inl rfl), texts_sumOf, ihl hl, ihr hr,
      Expr.terms_append (e := .binary .add l r) rfl, List.mapM_append]
  | case2 l r ihl ihr =>
    obtain ⟨hl, hr⟩ := List.forall_mem_append.mp hconstants
    rw [sum_binary (.inr rfl), texts_sumOf, ihl hl, ihr hr,
      Expr.terms_append (e := .binary .sub l r) rfl, List.mapM_append]
  | case3 e hadd hsub =>
    have h := Expr.summands.eq_3 e hadd hsub
    rw [sum_eq_leaf hadd hsub]
    cases hm : e.mentions x with
    | true =>
      rw [leaf_eq hm, terms_of_mentions h hm, List.mapM_cons, List.mapM_nil]
      cases (render s x e).text <;> rfl
    | false =>
      obtain ⟨q, hq⟩ := hconstants e (h ▸ List.mem_singleton_self e) hm
      rw [leaf_constant _ hm hq, terms_of_not_mentions h hm]
      rfl

/-- The texts with their signs, and the constant, stand for the whole. -/
theorem means_sum (hconstants : HasConstants s x e) (hf : (render s x e).sum = .ok f) :
    f.Means s x e := by
  induction e using Expr.summands.induct generalizing f with
  | case1 l r ihl ihr =>
    obtain ⟨hl, hr⟩ := List.forall_mem_append.mp hconstants
    rw [sum_binary (.inl rfl)] at hf
    obtain ⟨a, b, ha, hb, rfl⟩ := sumOf_eq_ok hf
    exact (ihl hl ha).add (ihr hr hb)
  | case2 l r ihl ihr =>
    obtain ⟨hl, hr⟩ := List.forall_mem_append.mp hconstants
    rw [sum_binary (.inr rfl)] at hf
    obtain ⟨a, b, ha, hb, rfl⟩ := sumOf_eq_ok hf
    exact (ihl hl ha).sub (ihr hr hb)
  | case3 e hadd hsub =>
    have h := Expr.summands.eq_3 e hadd hsub
    rw [sum_eq_leaf hadd hsub] at hf
    cases hm : e.mentions x with
    | true =>
      rw [leaf_eq hm, map_eq_ok] at hf
      obtain ⟨text, -, rfl⟩ := hf
      exact .ofPart h text hm
    | false =>
      obtain ⟨q, hq⟩ := hconstants e (h ▸ List.mem_singleton_self e) hm
      rw [leaf_constant _ hm hq] at hf
      obtain rfl := Except.ok.inj hf
      exact .ofConstant h hm hq

theorem text_constant (hm : e.mentions x = false) :
    (render s x e).text = .ok (constantText s e) := by
  cases e with
  | binary op l r =>
    simp only [render]
    split <;> simp [hm]
  | _ => simp [render, hm]

/-- A part with the parameter in no sum can be written. -/
theorem text_of_isSumFree (he : e.IsSumFree x) : ∃ text, (render s x e).text = .ok text := by
  have hwritten {e : Expr} {a : Except Error String} (ha : ∃ text, a = .ok text) :
      ∃ text, (if e.mentions x then a else .ok (constantText s e)) = .ok text := by
    split
    · exact ha
    · exact ⟨_, rfl⟩
  induction he with
  | constant hm => exact ⟨_, text_constant hm⟩
  | var =>
    simp only [render]
    exact ⟨_, rfl⟩
  | unary op _ ih =>
    obtain ⟨text, htext⟩ := ih
    simp only [render, htext]
    exact hwritten ⟨_, rfl⟩
  | binary hadd hsub _ _ ihl ihr =>
    obtain ⟨a, ha⟩ := ihl
    obtain ⟨b, hb⟩ := ihr
    simp only [render, hadd, hsub, or_self, if_false, ha, hb]
    exact hwritten ⟨_, rfl⟩
  | call f _ ih =>
    obtain ⟨text, htext⟩ := ih
    simp only [render, htext]
    exact hwritten ⟨_, rfl⟩
  | @matrix rows _ ih =>
    have hrows : Fails (fun _ => False) (renderRows s x rows) := by
      refine renderRows_fails fun r hr e he => ?_
      obtain ⟨text, htext⟩ := ih r hr e he
      rw [htext]
      exact fails_ok _
    simp only [render]
    cases htexts : renderRows s x rows with
    | error err => exact (hrows err htexts).elim
    | ok texts => exact hwritten ⟨_, rfl⟩

/-- The parts of a sum are its summands with the parameter, each once and in the order of the
source, and it has them all unless one cannot be written, which takes a sum inside of it. Their
values with their signs, and the constant, are the value of the whole wherever the summands without
the parameter keep their values. -/
theorem sum_means (s : Scope) (x : String) (e : Expr) (hconstants : HasConstants s x e) :
    Sum.texts <$> (render s x e).sum = (e.terms x).mapM (fun a => (render s x a).text) ∧
    ((∀ a ∈ e.terms x, a.IsSumFree x) → ∃ f, (render s x e).sum = .ok f) ∧
    ∀ f, (render s x e).sum = .ok f → ∀ (t : Scope) (values : List Rat),
      (∀ a ∈ e.summands, a.mentions x = false → t.eval a = s.eval a) →
      List.Forall₂ (fun v a => t.eval a = .ok (.rational v)) values (e.terms x) →
      t.eval e = .ok (.rational (f.value values)) := by
  refine ⟨texts_sum hconstants, fun hfree => ?_, fun f hf t values hkept hvalues => ?_⟩
  · obtain ⟨ts, hts⟩ := exists_mapM_eq_ok.mpr fun a ha => text_of_isSumFree (s := s) (hfree a ha)
    rw [← texts_sum hconstants, map_eq_ok] at hts
    obtain ⟨f, hf, -⟩ := hts
    exact ⟨f, hf⟩
  · exact (means_sum hconstants hf).eval_eq hkept hvalues

/-- `1 - (x - (2 - x * 3))` -/
def turnedTwice : Expr :=
  .binary .sub (.number "1")
    (.binary .sub (.var "x") (.binary .sub (.number "2") (.binary .mul (.var "x") (.number "3"))))

theorem sum_means_turned_twice :
    Sum.texts <$> (render .empty "x" turnedTwice).sum = .ok ["x", "x * 3"] ∧
    (∃ f, (render .empty "x" turnedTwice).sum = .ok f) ∧
    (render .empty "x" turnedTwice).sum = .ok ⟨[("x", true), ("x * 3", true)], 3⟩ ∧
    (Scope.empty.bind "x" (.rational 5)).eval turnedTwice =
      .ok (.rational (Sum.value ⟨[("x", true), ("x * 3", true)], 3⟩ [5, 15])) := by
  have hnumber : ∀ a ∈ turnedTwice.summands, a.mentions "x" = false →
      a = .number "1" ∨ a = .number "2" := by
    simp [turnedTwice, Expr.summands, Expr.mentions]
  have hterms : turnedTwice.terms "x" = [.var "x", .binary .mul (.var "x") (.number "3")] := by
    with_unfolding_all rfl
  have hsum : (render .empty "x" turnedTwice).sum = .ok ⟨[("x", true), ("x * 3", true)], 3⟩ := by
    with_unfolding_all rfl
  obtain ⟨htexts, hreturns, hmeans⟩ := sum_means .empty "x" turnedTwice <| by
    intro a ha hm
    rcases hnumber a ha hm with rfl | rfl
    · exact ⟨1, by with_unfolding_all rfl⟩
    · exact ⟨2, by with_unfolding_all rfl⟩
  refine ⟨htexts.trans (by with_unfolding_all rfl), hreturns ?_, hsum, hmeans _ hsum _ _ ?_ ?_⟩
  · rw [hterms, List.forall_mem_cons, List.forall_mem_singleton]
    exact ⟨.var, .binary (by decide) (by decide) .var (.constant rfl)⟩
  · intro a ha hm
    rcases hnumber a ha hm with rfl | rfl <;> with_unfolding_all rfl
  · rw [hterms]
    exact .cons (by with_unfolding_all rfl) (.cons (by with_unfolding_all rfl) .nil)

-- The constant of `x + 10 ^ 400 / 3` has no text, and so the term it is in has none.
example :
    let large : Expr := .binary .div (.binary .pow (.number "10") (.number "400")) (.number "3")
    let term : Expr := .binary .mul (.number "2") (.binary .add (.var "x") large)
    (render .empty "x" (.binary .add term (.number "1"))).sum.toOption.isNone := by
  decide +kernel

end Body
end Reckoner
