import Mathlib
import Reckoner.Body
import Reckoner.Proofs.Integral

namespace Reckoner
open Outcome

namespace Body
open Formula

/-- A part of a body as it is written, and as a part of a sum: its constant, and the formulas of its
parts with their signs. -/
structure Sketch where
  formula : Formula
  constant : Int
  parts : List (Formula × Bool)

def ofInt (n : Int) : Formula :=
  if n < 0 then .negative false (.number n.natAbs) else .number n.natAbs

def firstPart (p : Formula × Bool) : Formula :=
  if p.2 then .negative true p.1 else p.1

/-- A sum with its constant first, unless that is zero. -/
def sumFormula (c : Int) (parts : List (Formula × Bool)) : Formula :=
  if c = 0 then
    match parts with
    | [] => .number 0
    | p :: ps => ps.foldl addPart (firstPart p)
  else parts.foldl addPart (ofInt c)

theorem sumFormula_zero (p : Formula × Bool) (ps : List (Formula × Bool)) :
    sumFormula 0 (p :: ps) = ps.foldl addPart (firstPart p) := rfl

theorem sumFormula_of_ne {c : Int} (h : c ≠ 0) (parts : List (Formula × Bool)) :
    sumFormula c parts = parts.foldl addPart (ofInt c) := by
  unfold sumFormula
  exact if_neg h

namespace Sketch

def ofConstant (n : Int) : Sketch :=
  ⟨ofInt n, n, []⟩

def ofFormula (f : Formula) : Sketch :=
  ⟨f, 0, [(f, false)]⟩

def ofSum (c : Int) (parts : List (Formula × Bool)) : Sketch :=
  ⟨sumFormula c parts, c, parts⟩

end Sketch

def factor (e : Expr) (f : Formula) : Formula :=
  if e.isEnclosed .mul then .parens f else f

/-- What the body of a function of `x` is written as. The constants of a sum are added up and
come first, a minus is put before what it negates, and there are parentheses where a sum was
multiplied. -/
def fold (x : String) (e : Expr) : Sketch :=
  if e.mentions x then
    match e with
    -- No parentheses here, also if what is negated is written as a sum.
    | .unary _ a => .ofFormula (.negative false (fold x a).formula)
    | .binary .add l r =>
      let a := fold x l
      let b := fold x r
      .ofSum (a.constant + b.constant) (a.parts ++ b.parts)
    | .binary .sub l r =>
      let a := fold x l
      let b := fold x r
      .ofSum (a.constant - b.constant) (a.parts ++ b.parts.map (fun p => (p.1, !p.2)))
    -- The shape of an operand decides on its parentheses, whatever its text has become.
    | .binary _ l r =>
      .ofFormula (.product (factor l (fold x l).formula) (factor r (fold x r).formula))
    | _ => .ofFormula .name
  else .ofConstant (e.arith 0)

section Fold
variable {x : String} {e l r : Expr}

theorem fold_constant (h : e.mentions x = false) : fold x e = .ofConstant (e.arith 0) := by
  unfold fold
  exact if_neg (by simp [h])

theorem fold_var (x : String) : fold x (.var x) = .ofFormula .name := by
  unfold fold
  exact if_pos (beq_self_eq_true x)

theorem fold_neg (op : UnOp) (h : e.mentions x = true) :
    fold x (.unary op e) = .ofFormula (.negative false (fold x e).formula) := by
  rw [fold]
  exact if_pos h

theorem fold_add (h : (Expr.binary .add l r).mentions x = true) :
    fold x (.binary .add l r) = .ofSum ((fold x l).constant + (fold x r).constant)
      ((fold x l).parts ++ (fold x r).parts) := by
  rw [fold, if_pos h]

theorem fold_sub (h : (Expr.binary .sub l r).mentions x = true) :
    fold x (.binary .sub l r) = .ofSum ((fold x l).constant - (fold x r).constant)
      ((fold x l).parts ++ (fold x r).parts.map (fun p => (p.1, !p.2))) := by
  rw [fold, if_pos h]

theorem fold_mul (h : (Expr.binary .mul l r).mentions x = true) :
    fold x (.binary .mul l r) =
      .ofFormula (.product (factor l (fold x l).formula) (factor r (fold x r).formula)) := by
  rw [fold, if_pos h]
  · exact nofun
  · exact nofun

end Fold

section Text
variable {x : String} {s : Scope} {e : Expr} {f : Formula} {ps : List (Formula × Bool)}

theorem text_ofInt (n : Int) : (ofInt n).text x = toString n := by
  apply String.toList_inj.mp
  rw [Rational.toList_toString]
  unfold ofInt
  split
  · exact String.toList_append
  · rfl

theorem inBody_intCast {n : Int} (h : (ofInt n).isReadable = true) :
    (Value.rational n).inBody = .ok ((ofInt n).text x) := by
  have hn : Rational.isLong n.natAbs = false := by
    unfold ofInt at h
    split at h <;> simpa [isReadable] using h
  have hlong : Rational.tooLong n = false := by
    rw [Rational.tooLong, Rat.num_intCast, Rat.den_intCast, hn]
    rfl
  have htext : Rational.text n = toString n := by
    rw [Rational.text, Rat.den_intCast, if_pos rfl, Rat.num_intCast]
  rw [text_ofInt, ← htext]
  simp [Value.inBody, Value.text?, Value.tooLong, hlong, Value.text]

def partsText (x : String) (ps : List (Formula × Bool)) : List (String × Bool) :=
  ps.map (fun p => (p.1.text x, p.2))

theorem text_parts (f : Formula) (ps : List (Formula × Bool)) :
    (ps.foldl addPart f).text x =
      String.intercalate " " (f.text x :: (partsText x ps).map (partText false)) := by
  have hpart (p : Formula × Bool) : (if p.2 then "- " else "+ ") ++ p.1.text x =
      partText false (p.1.text x, p.2) := by
    unfold partText
    cases p.2 <;> rfl
  rw [text_foldl, partsText, List.map_map]
  congr 2
  exact List.map_congr_left fun p _ => hpart p

section Both
variable {b : Formula → Bool} (hsum : ∀ minus l r, b (.sum minus l r) = (b l && b r))
include hsum

/-- What passes to a sum from both sides, and back, passes so to all its parts. -/
theorem both_foldl (f : Formula) (ps : List (Formula × Bool)) :
    b (ps.foldl addPart f) = true ↔ b f = true ∧ ∀ p ∈ ps, b p.1 = true := by
  induction ps generalizing f with
  | nil => simp
  | cons p ps ih =>
    rw [List.foldl_cons, ih, addPart, hsum, Bool.and_eq_true, List.forall_mem_cons, and_assoc]

theorem both_sumFormula (hnegative : ∀ spaced a, b (.negative spaced a) = b a) (c : Int) :
    b (sumFormula c ps) = true ↔
      (ps = [] ∨ c ≠ 0 → b (ofInt c) = true) ∧ ∀ p ∈ ps, b p.1 = true := by
  by_cases hc : c = 0
  · subst hc
    cases ps with
    | nil => simp [sumFormula, ofInt]
    | cons p ps =>
      have hfirst : b (firstPart p) = b p.1 := by
        unfold firstPart
        split
        · exact hnegative true p.1
        · rfl
      rw [sumFormula_zero, both_foldl hsum, hfirst]
      simp
  · rw [sumFormula_of_ne hc, both_foldl hsum]
    simp [hc]

end Both

/-- What is written of a sum. -/
theorem text_sumFormula (hx : (Expr.var x).IsWritten) {c : Int} (hne : ps ≠ [])
    (hread : (sumFormula c ps).isReadable = true) :
    Sum.text ⟨partsText x ps, c⟩ = .ok ((sumFormula c ps).text x) := by
  have htrim := (isTrimmed_text hx (sumFormula c ps)).trim_eq
  rw [← htrim, Sum.text]
  by_cases hc : c = 0
  · subst hc
    obtain ⟨p, ps, rfl⟩ := List.exists_cons_of_ne_nil hne
    have hfirst : (firstPart p).text x = partText true (p.1.text x, p.2) := by
      unfold firstPart partText
      cases p.2 <;> rfl
    rw [if_pos Int.cast_zero, sumFormula_zero, text_parts, hfirst]
    rfl
  · rw [sumFormula_of_ne hc, both_foldl fun _ _ _ => rfl] at hread
    rw [if_neg (Int.cast_ne_zero.mpr hc), inBody_intCast hread.1, sumFormula_of_ne hc, text_parts]
    rfl

end Text

section Render
variable {x : String} {s : Scope} {e l r : Expr}

theorem constant?_eq (h : e.IsIntegral x) (hx : e.mentions x = false) (s : Scope) :
    constant? s e = some ((e.arith (0 : Int) : Int) : Rat) := by
  rw [constant?, h.eval_constant hx]

theorem constantText_eq (h : e.IsIntegral x) (hx : e.mentions x = false)
    (hread : (ofInt (e.arith 0)).isReadable = true) (s : Scope) :
    constantText s e = (ofInt (e.arith 0)).text x := by
  have hbody := inBody_intCast (x := x) hread
  rw [constantText, h.eval_constant hx]
  simp [Value.isAbsent, hbody]

/-- A part without the parameter is shown by its value, and adds it to the constant of a sum. -/
theorem render_constant (h : e.IsIntegral x) (hx : e.mentions x = false) (s : Scope) :
    (render s x e).text = .ok (constantText s e) ∧
    (render s x e).sum = .ok ⟨[], (e.arith (0 : Int) : Int)⟩ := by
  have hconstant := constant?_eq h hx s
  -- A sum is taken apart even here: its constant is put together from those of its operands.
  induction h with
  | number | neg | mul => simp [render, leaf, hx, hconstant]
  | var => simp [Expr.mentions] at hx
  | add hl hr ihl ihr =>
    obtain ⟨hxl, hxr⟩ := Bool.or_eq_false_iff.mp hx
    have hsuml := (ihl hxl (constant?_eq hl hxl s)).2
    have hsumr := (ihr hxr (constant?_eq hr hxr s)).2
    simp [render, hx, sumOf, hsuml, hsumr, Sum.add, Expr.arith]
  | sub hl hr ihl ihr =>
    obtain ⟨hxl, hxr⟩ := Bool.or_eq_false_iff.mp hx
    have hsuml := (ihl hxl (constant?_eq hl hxl s)).2
    have hsumr := (ihr hxr (constant?_eq hr hxr s)).2
    simp [render, hx, sumOf, hsuml, hsumr, Sum.sub, Expr.arith]

/-- The rendering of a part is what its sketch says, as far as its integers can be written. -/
structure IsSketched (s : Scope) (x : String) (e : Expr) : Prop where
  text : (fold x e).formula.isReadable = true →
    (render s x e).text = .ok ((fold x e).formula.text x)
  sum : (∀ p ∈ (fold x e).parts, p.1.isReadable = true) →
    (render s x e).sum = .ok ⟨partsText x (fold x e).parts, (fold x e).constant⟩
  parts : e.mentions x = true → (fold x e).parts ≠ []

theorem isSketched_constant (h : e.IsIntegral x) (hx : e.mentions x = false) (s : Scope) :
    IsSketched s x e := by
  obtain ⟨htext, hsum⟩ := render_constant h hx s
  have hfold := fold_constant hx
  refine ⟨fun hread => ?_, fun _ => ?_, fun hm => ?_⟩
  · rw [hfold] at hread ⊢
    rw [htext, constantText_eq h hx hread]
    rfl
  · rw [hfold, hsum]
    rfl
  · rw [hx] at hm
    cases hm

theorem leaf_eq (hm : e.mentions x = true) (t : Except Error String) :
    leaf s x e t = Sum.ofPart <$> t := by
  cases e with
  | absent => cases hm
  | number | var | imaginary | unary | binary | call | matrix | other => simp [leaf, hm]

/-- A part that is no sum is one part of a sum. -/
theorem isSketched_formula {f : Formula} (hm : e.mentions x = true)
    (hfold : fold x e = .ofFormula f)
    (hsum : (render s x e).sum = leaf s x e (render s x e).text)
    (htext : f.isReadable = true → (render s x e).text = .ok (f.text x)) : IsSketched s x e := by
  refine ⟨fun hread => ?_, fun hparts => ?_, fun _ => ?_⟩
  · rw [hfold] at hread ⊢
    exact htext hread
  · rw [hfold] at hparts ⊢
    rw [hsum, leaf_eq hm, htext (hparts (f, false) (List.mem_singleton_self _))]
    simp [Sketch.ofFormula, Sum.ofPart, partsText]
  · rw [hfold]
    exact List.cons_ne_nil _ _

/-- A sum has the parts of its operands. -/
theorem isSketched_sum (hx : (Expr.var x).IsWritten) {c : Int} {ps : List (Formula × Bool)}
    (hfold : fold x e = .ofSum c ps) (hne : ps ≠ [])
    (hsum : (∀ p ∈ ps, p.1.isReadable = true) → (render s x e).sum = .ok ⟨partsText x ps, c⟩)
    (htext : (render s x e).text = (render s x e).sum >>= Sum.text) : IsSketched s x e := by
  refine ⟨fun hread => ?_, fun hparts => ?_, fun _ => ?_⟩
  · rw [hfold] at hread ⊢
    rw [htext, hsum (((both_sumFormula (fun _ _ _ => rfl) (fun _ _ => rfl) c).mp hread).2)]
    exact text_sumFormula hx hne hread
  · rw [hfold] at hparts ⊢
    exact hsum hparts
  · rw [hfold]
    exact hne

/-- What does not see parentheses does not see those of an operand. -/
theorem factor_eq {α : Type} {b : Formula → α} (h : ∀ a, b (.parens a) = b a) (e : Expr)
    (f : Formula) : b (factor e f) = b f := by
  unfold factor
  split
  · exact h f
  · rfl

theorem text_factor (e : Expr) (f : Formula) :
    Expr.operand .mul e (f.text x) = (factor e f).text x := by
  rw [Expr.operand_eq, factor]
  split <;> rfl

/-- A sum in which the parameter occurs has a part, whatever happens to the signs. -/
theorem append_parts_ne_nil {op : BinOp} (hl : IsSketched s x l) (hr : IsSketched s x r)
    (hm : (Expr.binary op l r).mentions x = true) (flip : Formula × Bool → Formula × Bool) :
    (fold x l).parts ++ (fold x r).parts.map flip ≠ [] := by
  rcases Bool.or_eq_true_iff.mp hm with hm | hm
  · exact List.append_ne_nil_of_left_ne_nil (hl.parts hm) _
  · exact List.append_ne_nil_of_right_ne_nil _ (List.map_eq_nil_iff.not.mpr (hr.parts hm))

/-- The text of a body is that of its sketch. -/
theorem isSketched (hx : (Expr.var x).IsWritten) (h : e.IsIntegral x) (s : Scope) :
    IsSketched s x e := by
  induction h using Expr.IsIntegral.split with
  | constant h hm => exact isSketched_constant h hm s
  | var =>
    refine isSketched_formula (beq_self_eq_true x) (fold_var x) rfl fun _ => ?_
    simp [render, Expr.mentions, Expr.text, Formula.text]
  | @neg e _ hm ih =>
    have hneg : (Expr.unary .neg e).mentions x = true := hm
    refine isSketched_formula hneg (fold_neg .neg hm) rfl fun hread => ?_
    simp [render, hneg, ih.text hread, UnOp.sign, Formula.text]
  | add _ _ hm ihl ihr =>
    refine isSketched_sum hx (fold_add hm) ?_ (fun hparts => ?_) (by simp [render, hm])
    · simpa using append_parts_ne_nil ihl ihr hm id
    · obtain ⟨hpl, hpr⟩ := List.forall_mem_append.mp hparts
      simp [render, sumOf, ihl.sum hpl, ihr.sum hpr, Sum.add, partsText]
  | sub _ _ hm ihl ihr =>
    refine isSketched_sum hx (fold_sub hm) (append_parts_ne_nil ihl ihr hm _)
      (fun hparts => ?_) (by simp [render, hm])
    obtain ⟨hpl, hpr⟩ := List.forall_mem_append.mp hparts
    simp [render, sumOf, ihl.sum hpl, ihr.sum (List.forall_mem_map.mp hpr), Sum.sub, partsText]
  | mul _ _ hm ihl ihr =>
    refine isSketched_formula hm (fold_mul hm) rfl fun hread => ?_
    obtain ⟨hreadl, hreadr⟩ := Bool.and_eq_true_iff.mp hread
    have hfactor := factor_eq (b := Formula.isReadable) fun _ => rfl
    rw [hfactor] at hreadl hreadr
    simp [render, hm, ihl.text hreadl, ihr.text hreadr, Expr.joined, text_factor, Formula.text,
      BinOp.between]

end Render

section Values
variable {x : String} {e : Expr}

theorem value_ofInt (q : Rat) (n : Int) : (ofInt n).value q = n := by
  unfold ofInt
  split
  next hn =>
    rw [Formula.value, Formula.value, ← Int.cast_natCast, Int.ofNat_natAbs_of_nonpos hn.le]
    simp
  next hn => rw [Formula.value, ← Int.cast_natCast, Int.natAbs_of_nonneg (not_lt.mp hn)]

theorem value_sumFormula (q : Rat) (c : Int) (ps : List (Formula × Bool)) :
    (sumFormula c ps).value q = c + partsValue q ps := by
  by_cases hc : c = 0
  · subst hc
    cases ps with
    | nil => simp [sumFormula, Formula.value, partsValue]
    | cons p ps =>
      have hfirst : (firstPart p).value q = if p.2 then -p.1.value q else p.1.value q := by
        unfold firstPart
        split <;> rfl
      rw [sumFormula_zero, value_foldl, hfirst, partsValue_cons, Int.cast_zero, zero_add]
  · rw [sumFormula_of_ne hc, value_foldl, value_ofInt]

theorem partsValue_append (q : Rat) (ps qs : List (Formula × Bool)) :
    partsValue q (ps ++ qs) = partsValue q ps + partsValue q qs := by
  simp [partsValue]

theorem partsValue_flip (q : Rat) (ps : List (Formula × Bool)) :
    partsValue q (ps.map (fun p => (p.1, !p.2))) = -partsValue q ps := by
  induction ps with
  | nil => simp [partsValue]
  | cons p ps ih =>
    rw [List.map_cons, partsValue_cons, partsValue_cons, ih, neg_add]
    obtain ⟨f, minus⟩ := p
    cases minus <;> simp

/-- The sketch of a part means the part, as it is written and as a part of a sum. -/
theorem value_fold (h : e.IsIntegral x) (q : Rat) :
    (fold x e).formula.value q = e.arith q ∧
    (fold x e).constant + partsValue q (fold x e).parts = e.arith q := by
  have hformula {f : Formula} {v : Rat} (hf : f.value q = v) :
      (Sketch.ofFormula f).formula.value q = v ∧
      (Sketch.ofFormula f).constant + partsValue q (Sketch.ofFormula f).parts = v := by
    simp [Sketch.ofFormula, partsValue, hf]
  have hsum {c : Int} {ps : List (Formula × Bool)} {v : Rat} (hv : c + partsValue q ps = v) :
      (Sketch.ofSum c ps).formula.value q = v ∧
      (Sketch.ofSum c ps).constant + partsValue q (Sketch.ofSum c ps).parts = v :=
    ⟨(value_sumFormula q c ps).trans hv, hv⟩
  induction h using Expr.IsIntegral.split with
  | constant h hm =>
    rw [fold_constant hm, h.arith_eq hm]
    exact ⟨value_ofInt q _, by simp [Sketch.ofConstant, partsValue]⟩
  | var =>
    rw [fold_var]
    exact hformula rfl
  | neg _ hm ih =>
    rw [fold_neg .neg hm]
    exact hformula (congrArg Neg.neg ih.1)
  | add _ _ hm ihl ihr =>
    rw [fold_add hm]
    apply hsum
    rw [partsValue_append, Expr.arith, ← ihl.2, ← ihr.2, Int.cast_add]
    ring
  | sub _ _ hm ihl ihr =>
    rw [fold_sub hm]
    apply hsum
    rw [partsValue_append, partsValue_flip, Expr.arith, ← ihl.2, ← ihr.2, Int.cast_sub]
    ring
  | mul _ _ hm ihl ihr =>
    rw [fold_mul hm]
    apply hformula
    have hfactor := factor_eq (b := Formula.value q) fun _ => rfl
    rw [Formula.value, hfactor, hfactor, ihl.1, ihr.1, Expr.arith]

end Values

section Unsigned
variable {x : String} {e : Expr} {f g : Formula}

/-- Summands that keep their meaning at the beginning too, with a minus before them. -/
structure IsPart (f : Formula) : Prop extends IsSummand f where
  turned : f.groups 1 = true

theorem isPart_ofInt {n : Int} (h : 0 ≤ n) : IsPart (ofInt n) := by
  rw [ofInt, if_neg (not_lt.mpr h)]
  exact ⟨⟨rfl, rfl, rfl, rfl⟩, rfl⟩

theorem isPart_parens (hsigns : f.signsApart = true) (hgroups : f.groups 0 = true) :
    IsPart (.parens f) :=
  ⟨⟨hsigns, rfl, rfl, hgroups⟩, hgroups⟩

theorem IsPart.product (hf : IsPart f) (hg : IsPart g) : IsPart (.product f g) where
  signs := by simp [signsApart, hf.signs, hg.signs]
  lead := hf.lead
  flat := by simp [hasSum, hf.flat, hg.flat]
  groups := by simp [Formula.groups, hf.groups, hg.groups, hf.flat, hg.flat]
  turned := by simp [Formula.groups, hf.turned, hg.groups, hf.flat, hg.flat]

/-- A sum of such parts is read as it is meant, whatever its constant is. -/
theorem means_sumFormula {c : Int} {ps : List (Formula × Bool)} (hps : ∀ p ∈ ps, IsPart p.1) :
    (sumFormula c ps).signsApart = true ∧ (sumFormula c ps).groups 0 = true := by
  have hfoldl {f : Formula} {ps : List (Formula × Bool)} (hps : ∀ p ∈ ps, IsPart p.1)
      (hsigns : f.signsApart = true) (hgroups : f.groups 0 = true) :
      (ps.foldl addPart f).signsApart = true ∧ (ps.foldl addPart f).groups 0 = true :=
    ⟨signsApart_foldl (fun p hp => (hps p hp).toIsSummand) hsigns,
      groups_foldl (fun p hp => (hps p hp).toIsSummand) hgroups⟩
  by_cases hc : c = 0
  · subst hc
    cases ps with
    | nil => exact ⟨rfl, rfl⟩
    | cons p ps =>
      obtain ⟨hp, hps⟩ := List.forall_mem_cons.mp hps
      rw [sumFormula_zero, firstPart]
      split
      · exact hfoldl hps hp.signs hp.turned
      · exact hfoldl hps hp.signs hp.groups
  · rw [sumFormula_of_ne hc, ofInt]
    split
    · exact hfoldl hps rfl rfl
    · exact hfoldl hps rfl rfl

/-- Sketches that keep their meaning in parentheses, with parts that keep theirs without. -/
structure Sketch.Keeps (k : Sketch) : Prop where
  signs : k.formula.signsApart = true
  groups : k.formula.groups 0 = true
  parts : ∀ p ∈ k.parts, IsPart p.1

theorem IsPart.keeps (h : IsPart f) : (Sketch.ofFormula f).Keeps :=
  ⟨h.signs, h.groups, List.forall_mem_singleton.mpr h⟩

theorem keeps_sum {c : Int} {ps : List (Formula × Bool)} (hps : ∀ p ∈ ps, IsPart p.1) :
    (Sketch.ofSum c ps).Keeps :=
  ⟨(means_sumFormula hps).1, (means_sumFormula hps).2, hps⟩

/-- An operand of a product is a single part or has parentheses. -/
theorem isPart_factor (hk : (fold x e).Keeps)
    (hpart : e.isEnclosed .mul = false → IsPart (fold x e).formula) :
    IsPart (factor e (fold x e).formula) := by
  cases he : e.isEnclosed .mul with
  | true =>
    rw [factor, if_pos he]
    exact isPart_parens hk.signs hk.groups
  | false =>
    rw [factor, if_neg (by simp [he])]
    exact hpart he

/-- A body without signs but those of differences keeps its meaning. -/
theorem keeps_fold (h : e.IsIntegral x) (hsign : e.isUnsigned x = true) :
    (fold x e).Keeps ∧ (e.isEnclosed .mul = false → IsPart (fold x e).formula) := by
  -- The second half carries the induction through products: what has no parentheses is one part.
  have hformula {e : Expr} {f : Formula} (hfold : fold x e = .ofFormula f) (hf : IsPart f) :
      (fold x e).Keeps ∧ (e.isEnclosed .mul = false → IsPart (fold x e).formula) := by
    rw [hfold]
    exact ⟨hf.keeps, fun _ => hf⟩
  induction h using Expr.IsIntegral.split with
  | constant h hm =>
    have hpart := isPart_ofInt (h.arith_nonneg hm hsign)
    rw [fold_constant hm]
    exact ⟨⟨hpart.signs, hpart.groups, List.forall_mem_nil _⟩, fun _ => hpart⟩
  | var => exact hformula (fold_var x) ⟨⟨rfl, rfl, rfl, rfl⟩, rfl⟩
  | neg => cases hsign
  | add _ _ hm ihl ihr =>
    obtain ⟨hsl, hsr⟩ := Bool.and_eq_true_iff.mp hsign
    rw [fold_add hm]
    refine ⟨keeps_sum (List.forall_mem_append.mpr ⟨(ihl hsl).1.parts, (ihr hsr).1.parts⟩), ?_⟩
    intro hopen
    cases hopen
  | sub _ _ hm ihl ihr =>
    simp only [Expr.isUnsigned, Bool.and_eq_true] at hsign
    rw [fold_sub hm]
    refine ⟨keeps_sum (List.forall_mem_append.mpr ⟨(ihl hsign.1.2).1.parts, ?_⟩), ?_⟩
    · exact List.forall_mem_map.mpr (ihr hsign.2).1.parts
    · intro hopen
      cases hopen
  | mul _ _ hm ihl ihr =>
    obtain ⟨hsl, hsr⟩ := Bool.and_eq_true_iff.mp hsign
    apply hformula (fold_mul hm)
    exact (isPart_factor (ihl hsl).1 (ihl hsl).2).product (isPart_factor (ihr hsr).1 (ihr hsr).2)

end Unsigned

theorem isIntegral_fold (h : e.IsIntegral x) :
    (fold x e).formula.isIntegral = true ∧
    ∀ p ∈ (fold x e).parts, p.1.isIntegral = true := by
  have hint (n : Int) : (ofInt n).isIntegral = true := by
    unfold ofInt
    split <;> rfl
  have hformula {f : Formula} (hf : f.isIntegral = true) :
      (Sketch.ofFormula f).formula.isIntegral = true ∧
      ∀ p ∈ (Sketch.ofFormula f).parts, p.1.isIntegral = true :=
    ⟨hf, List.forall_mem_singleton.mpr hf⟩
  have hsum {c : Int} {ps : List (Formula × Bool)} (hps : ∀ p ∈ ps, p.1.isIntegral = true) :
      (Sketch.ofSum c ps).formula.isIntegral = true ∧
      ∀ p ∈ (Sketch.ofSum c ps).parts, p.1.isIntegral = true :=
    ⟨(both_sumFormula (fun _ _ _ => rfl) (fun _ _ => rfl) c).mpr ⟨fun _ => hint c, hps⟩, hps⟩
  induction h using Expr.IsIntegral.split with
  | constant h hm =>
    rw [fold_constant hm]
    exact ⟨hint _, List.forall_mem_nil _⟩
  | var =>
    rw [fold_var]
    exact hformula rfl
  | neg _ hm ih =>
    rw [fold_neg .neg hm]
    exact hformula ih.1
  | add _ _ hm ihl ihr =>
    rw [fold_add hm]
    exact hsum (List.forall_mem_append.mpr ⟨ihl.2, ihr.2⟩)
  | sub _ _ hm ihl ihr =>
    rw [fold_sub hm]
    exact hsum (List.forall_mem_append.mpr ⟨ihl.2, List.forall_mem_map.mpr ihr.2⟩)
  | mul _ _ hm ihl ihr =>
    rw [fold_mul hm]
    have hfactor := factor_eq (b := Formula.isIntegral) fun _ => rfl
    apply hformula
    rw [Formula.isIntegral, hfactor, hfactor, ihl.1, ihr.1]
    rfl

/-- The text of a body cannot be read where a summand begins with a minus. Where it can, it has a
value, and that of the body if it groups as the body does. It does so, and can be read, if there are
no minuses but those of differences with the parameter. -/
theorem bodyText_means (s : Scope) (x : String) (body : Expr) (hx : (Expr.var x).IsWritten)
    (hbody : body.IsIntegral x) (hread : (fold x body).formula.isReadable = true) :
    let f := (fold x body).formula
    s.bodyText x body = .ok (f.text x) ∧
    (f.signsApart = false → ∃ err, Session.read (f.text x) = .error err) ∧
    (f.signsApart = true →
      Session.read (f.text x) = .ok (some (.expression (f.reading x))) ∧
      ∀ (t : Scope) (q : Rat), ∃ v w,
        (t.bind x (.rational q)).eval (f.reading x) = .ok (.rational v) ∧
        (t.bind x (.rational q)).eval body = .ok (.rational w) ∧
        (f.groups 0 = true → v = w)) ∧
    (body.isUnsigned x = true → f.signsApart = true ∧ f.groups 0 = true) := by
  intro f
  have heval {e : Expr} (h : e.IsIntegral x) (t : Scope) (q : Rat) :
      (t.bind x (.rational q)).eval e = .ok (.rational (e.arith q)) :=
    h.evalWith_eq fun _ => Scope.lookup?_bind rfl t x
  have hreading := isIntegral_reading (x := x) (isIntegral_fold hbody).1 hread
  refine ⟨(isSketched hx hbody s).text hread, refused_formula hx,
    fun hsigns => ⟨read_formula hx hsigns, fun t q => ?_⟩, fun hsign => ?_⟩
  · refine ⟨_, _, heval hreading t q, heval hbody t q, fun hgroups => ?_⟩
    have hvalue := eval_reading (x := x) hread hgroups t q
    rw [heval hreading, (value_fold hbody q).1] at hvalue
    exact Value.rational.inj (Except.ok.inj hvalue)
  · obtain ⟨hkeeps, -⟩ := keeps_fold hbody hsign
    exact ⟨hkeeps.signs, hkeeps.groups⟩

/-- `-(x + 1)`. -/
def negatedSum : Expr :=
  .unary .neg (.binary .add (.var "x") (.number "1"))

/-- `x + (-x)`. -/
def negatedSummand : Expr :=
  .binary .add (.var "x") (.unary .neg (.var "x"))

/-- The body `-(x + 1)` is written `-1 + x`: at 3 the body is -4, and its text is 2. The body
`x + (-x)` is written `x + -x`, which cannot be read. -/
theorem bodyText_means_negated :
    ((Expr.var "x").IsWritten ∧ negatedSum.IsIntegral "x" ∧
      (fold "x" negatedSum).formula.isReadable = true ∧ negatedSummand.IsIntegral "x" ∧
      (fold "x" negatedSummand).formula.isReadable = true) ∧
    (Scope.empty.bodyText "x" negatedSum = .ok "-1 + x" ∧
      ∃ e, Session.read "-1 + x" = .ok (some (.expression e)) ∧
        (Scope.empty.bind "x" (.rational 3)).eval e = .ok (.rational 2) ∧
        (Scope.empty.bind "x" (.rational 3)).eval negatedSum = .ok (.rational (-4))) ∧
    Scope.empty.bodyText "x" negatedSummand = .ok "x + -x" ∧
    ∃ err, Session.read "x + -x" = .error err := by
  have hbindable : IsBindable "x" := by decide
  have hx := hbindable.isWritten
  have hone : (Expr.number "1").IsIntegral "x" := .number (isLiteral_toString 1) (by decide)
  have hsum : negatedSum.IsIntegral "x" := .neg (.add .var hone)
  have hsummand : negatedSummand.IsIntegral "x" := .add .var (.neg .var)
  have hreadSum : (fold "x" negatedSum).formula.isReadable = true := by decide
  have hreadSummand : (fold "x" negatedSummand).formula.isReadable = true := by decide
  obtain ⟨htext, -, hreads, -⟩ := bodyText_means .empty "x" negatedSum hx hsum hreadSum
  obtain ⟨hread, -⟩ := hreads (by decide)
  obtain ⟨htext', hrefused, -⟩ := bodyText_means .empty "x" negatedSummand hx hsummand hreadSummand
  refine ⟨⟨hx, hsum, hreadSum, hsummand, hreadSummand⟩, ⟨htext, _, hread, ?_, ?_⟩, htext',
    hrefused (by decide)⟩
  · with_unfolding_all rfl
  · with_unfolding_all rfl

end Body
end Reckoner
