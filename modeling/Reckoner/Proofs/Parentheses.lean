import Reckoner.Proofs.Regrouping

namespace Reckoner
namespace Expr

def operandChain (op : BinOp) (e : Expr) : Chain :=
  e.chain.enclosed (e.isEnclosed op)

def keepsLeft (op : BinOp) (ops : List (BinOp × Expr)) : Bool :=
  op.isSum || ops.all (fun o => !o.1.isSum)

/-- Whether the operands on the right of `op` are grouped before it, or may be grouped after it. -/
def keepsRight (assoc : BinOp → BinOp → Bool) (op : BinOp) (ops : List (BinOp × Expr)) : Bool :=
  ops.all (fun o => if op.isSum then !o.1.isSum || assoc op o.1 else !o.1.isSum && assoc op o.1)

mutual
/-- Whether all the parentheses that are left out are around signs that associate. -/
def keeps (assoc : BinOp → BinOp → Bool) : Expr → Bool
  | .unary _ e => keeps assoc e
  | .binary op l r =>
    keeps assoc l && keeps assoc r &&
      (op = .pow || (keepsLeft op (l.operandChain op).more &&
        keepsRight assoc op (r.operandChain op).more))
  | .matrix rows => keepsRows assoc rows
  | _ => true

def keepsRow (assoc : BinOp → BinOp → Bool) : List Expr → Bool
  | [] => true
  | e :: es => keeps assoc e && keepsRow assoc es

def keepsRows (assoc : BinOp → BinOp → Bool) : List (List Expr) → Bool
  | [] => true
  | r :: rs => keepsRow assoc r && keepsRows assoc rs
end

theorem keepsRow_eq {assoc : BinOp → BinOp → Bool} (r : List Expr) :
    keepsRow assoc r = r.all (keeps assoc) := by
  induction r with
  | nil => rfl
  | cons e es ih => simp only [keepsRow, ih, List.all_cons]

theorem keepsRows_eq {assoc : BinOp → BinOp → Bool} (rows : List (List Expr)) :
    keepsRows assoc rows = rows.all (fun r => r.all (keeps assoc)) := by
  induction rows with
  | nil => rfl
  | cons r rs ih => simp only [keepsRows, keepsRow_eq, ih, List.all_cons]

/-- Relations between expressions and their parts, where signs that associate may be regrouped. -/
structure Regroups (assoc : BinOp → BinOp → Bool) (R : Expr → Expr → Prop) : Prop where
  refl (a : Expr) : R a a
  trans {a b c : Expr} (h : R a b) (h' : R b c) : R a c
  unary {a b : Expr} (op : UnOp) (h : R a b) : R (.unary op a) (.unary op b)
  binary {a a' b b' : Expr} (op : BinOp) (h : R a a') (h' : R b b') :
    R (.binary op a b) (.binary op a' b')
  matrix {rows : List (List Expr)} {f : Expr → Expr} (h : ∀ r ∈ rows, ∀ e ∈ r, R e (f e)) :
    R (.matrix rows) (.matrix (rows.map (List.map f)))
  assoc {op o : BinOp} (h : assoc op o = true) (a b c : Expr) :
    R (.binary op a (.binary o b c)) (.binary o (.binary op a b) c)

namespace Chain
variable {pre pre' : Expr → Expr} {op : BinOp} {a p t t' : Expr} {ops more : List (BinOp × Expr)}

/-- All that comes before the sign of a sum is its left operand. -/
theorem regroup_sum (hop : op.isSum = true) :
    regroup pre t (ops ++ (op, p) :: more) = regroup (.binary op (regroup pre t ops)) p more := by
  induction ops generalizing pre t with
  | nil => simp only [List.nil_append, regroup, hop, if_true]
  | cons o ops ih =>
    rw [List.cons_append, regroup, regroup]
    split <;> exact ih

/-- Products are grouped by themselves. -/
theorem regroup_products (h : ∀ o ∈ ops, o.1.isSum = false) :
    regroup pre t (ops ++ more) = regroup pre (regroup id t ops) more := by
  induction ops generalizing t with
  | nil => rfl
  | cons o ops ih =>
    obtain ⟨ho, hops⟩ := List.forall_mem_cons.mp h
    rw [List.cons_append, regroup, regroup, ho, if_neg (by simp), if_neg (by simp), ih hops]

theorem whole_join_sum (hop : op.isSum = true) (l r : Chain) :
    (join op l r).whole = regroup (.binary op l.whole) r.first r.more :=
  regroup_sum hop

theorem whole_join_product (hop : op.isSum = false) {l : Chain}
    (h : ∀ o ∈ l.more, o.1.isSum = false) (r : Chain) :
    (join op l r).whole = regroup id (.binary op l.whole r.first) r.more := by
  refine (regroup_products h).trans ?_
  rw [regroup, hop, if_neg (by simp)]
  rfl

theorem whole_enclosed (inParens : Bool) (c : Chain) : (c.enclosed inParens).whole = c.whole := by
  cases inParens <;> rfl

section Relation
variable {assoc : BinOp → BinOp → Bool} {R : Expr → Expr → Prop} (hR : Regroups assoc R)
include hR

/-- What is related stays so under the same operands. -/
theorem regroup_mono (hpre : ∀ t t', R t t' → R (pre t) (pre' t')) (h : R t t') :
    R (regroup pre t ops) (regroup pre' t' ops) := by
  induction ops generalizing pre pre' t t' with
  | nil => exact hpre t t' h
  | cons o ops ih =>
    rw [regroup, regroup]
    split
    · exact ih (fun _ _ => hR.binary o.1 (hpre t t' h)) (hR.refl o.2)
    · exact ih hpre (hR.binary o.1 h (hR.refl o.2))

/-- What comes after the sign of a sum is grouped with its left operand. -/
theorem rel_sum (hop : op.isSum = true) (hops : keepsRight assoc op ops = true)
    (hpre : ∀ t, R (.binary op a (pre t)) (pre' t)) :
    R (.binary op a (regroup pre t ops)) (regroup pre' t ops) := by
  -- At each sum on the right what is to its left grows on both sides, so both are generalised.
  induction ops generalizing pre pre' t with
  | nil => exact hpre t
  | cons o ops ih =>
    rw [keepsRight, List.all_cons, Bool.and_eq_true] at hops
    obtain ⟨ho, hops⟩ := hops
    rw [regroup, regroup]
    split
    next hsum =>
      apply ih hops
      intro q
      have hassoc : assoc op o.1 = true := by simpa [hop, hsum] using ho
      exact hR.trans (hR.assoc hassoc a (pre t) q) (hR.binary o.1 (hpre t) (hR.refl q))
    next => exact ih hops hpre

/-- What comes after the sign of a product is grouped with its left operand. -/
theorem rel_product (hop : op.isSum = false) (hops : keepsRight assoc op ops = true) :
    R (.binary op a (regroup id t ops)) (regroup id (.binary op a t) ops) := by
  induction ops generalizing t with
  | nil => exact hR.refl _
  | cons o ops ih =>
    rw [keepsRight, List.all_cons, Bool.and_eq_true] at hops
    obtain ⟨ho, hops⟩ := hops
    obtain ⟨hsum, hassoc⟩ : o.1.isSum = false ∧ assoc op o.1 = true := by simpa [hop] using ho
    rw [regroup, regroup, hsum, if_neg (by simp), if_neg (by simp)]
    exact hR.trans (ih hops) (regroup_mono hR (fun _ _ h => h) (hR.assoc hassoc a t o.2))

/-- A sign can be put between two chains if both keep what is grouped on their side of it. -/
theorem rel_join {l r : Chain} (hl : keepsLeft op l.more = true)
    (hr : keepsRight assoc op r.more = true) :
    R (.binary op l.whole r.whole) (join op l r).whole := by
  cases hop : op.isSum with
  | true =>
    rw [whole_join_sum hop]
    exact rel_sum hR hop hr fun t => hR.refl _
  | false =>
    have hproducts : ∀ o ∈ l.more, o.1.isSum = false := by
      simpa [keepsLeft, hop] using hl
    rw [whole_join_product hop hproducts]
    exact rel_product hR hop hr

end Relation
end Chain

theorem whole_operandChain (op : BinOp) (e : Expr) : (e.operandChain op).whole = e.regrouped :=
  Chain.whole_enclosed _ _

theorem regrouped_power (l r : Expr) :
    regrouped (.binary .pow l r) = .binary .pow l.regrouped r.regrouped := by
  rw [regrouped, chain, if_pos rfl]
  rfl

/-- What the text of an operation is read as, from the operands on both sides of its sign. -/
theorem regrouped_binary {op : BinOp} (hpow : op ≠ .pow) (l r : Expr) :
    regrouped (.binary op l r) = (Chain.join op (l.operandChain op) (r.operandChain op)).whole := by
  rw [regrouped, chain, if_neg hpow]
  rfl

/-- An expression is related to what its text is read as. -/
theorem Regroups.regrouped {assoc : BinOp → BinOp → Bool} {R : Expr → Expr → Prop}
    (hR : Regroups assoc R) {e : Expr} (h : e.keeps assoc = true) : R e e.regrouped := by
  induction e with
  | absent | number | var | imaginary | call | other => exact hR.refl _
  | unary op e ih => exact hR.unary op (ih h)
  | binary op l r ihl ihr =>
    rw [keeps, Bool.and_eq_true, Bool.and_eq_true, Bool.or_eq_true] at h
    obtain ⟨⟨hl, hr⟩, hkept⟩ := h
    have hparts := hR.binary op (ihl hl) (ihr hr)
    by_cases hpow : op = .pow
    · subst hpow
      rw [regrouped_power]
      exact hparts
    · have hkept := hkept.resolve_left (by simpa using hpow)
      rw [Bool.and_eq_true] at hkept
      have hjoin := Chain.rel_join hR hkept.1 hkept.2
      rw [whole_operandChain, whole_operandChain] at hjoin
      rw [regrouped_binary hpow]
      exact hR.trans hparts hjoin
  | matrix rows ih =>
    rw [keeps, keepsRows_eq] at h
    rw [regrouped_matrix]
    apply hR.matrix
    intro r hr e he
    exact ih r hr e he (List.all_eq_true.mp (List.all_eq_true.mp h r hr) e he)

/-- Equality is such a relation if no signs associate. -/
theorem regroups_eq : Regroups (fun _ _ => false) Eq where
  refl := fun _ => rfl
  trans := Eq.trans
  unary := fun op h => congrArg (Expr.unary op) h
  binary := fun op h h' => congrArg₂ (Expr.binary op) h h'
  matrix := by
    intro rows f h
    congr 1
    refine (List.map_id rows).symm.trans (List.map_congr_left fun r hr => ?_)
    exact (List.map_id r).symm.trans (List.map_congr_left fun e he => h r hr e he)
  assoc := fun h => nomatch h

section Signs

/-- How many binary signs there are, apart from those within matrices and calls. -/
def signs : Expr → Nat
  | .unary _ e => signs e
  | .binary _ l r => signs l + signs r + 1
  | _ => 0

def Chain.signs (ops : List (BinOp × Expr)) : Nat :=
  (ops.map (fun o => o.2.signs + 1)).sum

namespace Chain
variable {pre : Expr → Expr} {t : Expr} {ops : List (BinOp × Expr)}

theorem signs_cons (o : BinOp × Expr) (ops : List (BinOp × Expr)) :
    signs (o :: ops) = o.2.signs + 1 + signs ops :=
  List.sum_cons

/-- However operands are grouped, there are as many signs. -/
theorem signs_regroup {k : Nat} (hpre : ∀ t, (pre t).signs = t.signs + k) :
    (regroup pre t ops).signs = t.signs + k + signs ops := by
  induction ops generalizing pre t k with
  | nil => exact hpre t
  | cons o ops ih =>
    have hcons := signs_cons o ops
    rw [regroup]
    split
    · have hsum (q : Expr) : (Expr.binary o.1 (pre t) q).signs = q.signs + (t.signs + k + 1) := by
        simp only [Expr.signs, hpre]
        omega
      rw [ih hsum, hcons]
      omega
    · rw [ih hpre, hcons]
      simp only [Expr.signs]
      omega

theorem signs_whole (c : Chain) : c.whole.signs = c.first.signs + signs c.more :=
  signs_regroup (k := 0) fun _ => rfl

theorem signs_join (op : BinOp) (l r : Chain) :
    (join op l r).whole.signs = l.whole.signs + r.whole.signs + 1 := by
  have hmore : signs (join op l r).more = signs l.more + (r.first.signs + 1 + signs r.more) := by
    simp [join, append, signs]
  rw [signs_whole, signs_whole, signs_whole, hmore]
  simp only [join, append]
  omega

/-- The last sign of a sum is at the root, and its right operand is what comes after it. -/
theorem root_of_sum (h : ∃ o ∈ ops, o.1.isSum = true) :
    ∃ o a b, regroup pre t ops = .binary o a b ∧ o.isSum = true ∧ b.signs < signs ops := by
  induction ops generalizing pre t with
  | nil =>
    obtain ⟨o, ho, -⟩ := h
    cases ho
  | cons o ops ih =>
    have hcons := signs_cons o ops
    by_cases hmore : ∃ o ∈ ops, o.1.isSum = true
    · rw [regroup]
      split
      · obtain ⟨o', a, b, hroot, hsum, hb⟩ := @ih (.binary o.1 (pre t)) o.2 hmore
        exact ⟨o', a, b, hroot, hsum, by omega⟩
      · obtain ⟨o', a, b, hroot, hsum, hb⟩ := @ih pre (.binary o.1 t o.2) hmore
        exact ⟨o', a, b, hroot, hsum, by omega⟩
    · have hproducts : ∀ o ∈ ops, o.1.isSum = false := by simpa using hmore
      have hsum : o.1.isSum = true := by
        obtain ⟨o', ho', hsum⟩ := h
        rcases List.mem_cons.mp ho' with rfl | ho'
        · exact hsum
        · exact absurd ⟨o', ho', hsum⟩ hmore
      have hright : (whole ⟨o.2, ops⟩).signs = o.2.signs + signs ops := signs_whole _
      refine ⟨o.1, pre t, whole ⟨o.2, ops⟩, ?_, hsum, by omega⟩
      have hgroup : regroup (.binary o.1 (pre t)) o.2 (ops ++ []) =
          .binary o.1 (pre t) (regroup id o.2 ops) := regroup_products hproducts
      rw [List.append_nil] at hgroup
      rw [regroup, if_pos hsum, hgroup]
      rfl

/-- Without sums the last sign is at the root. -/
theorem root_of_products (hne : ops ≠ []) (h : ∀ o ∈ ops, o.1.isSum = false) :
    ∃ o a b, regroup id t ops = .binary o a b ∧ b.signs < signs ops := by
  induction ops generalizing t with
  | nil => exact absurd rfl hne
  | cons o ops ih =>
    obtain ⟨ho, hops⟩ := List.forall_mem_cons.mp h
    have hcons := signs_cons o ops
    rw [regroup, ho, if_neg (by simp)]
    by_cases hnil : ops = []
    · subst hnil
      exact ⟨o.1, t, o.2, rfl, by omega⟩
    · obtain ⟨o', a, b, hroot, hb⟩ := @ih (.binary o.1 t o.2) hnil hops
      exact ⟨o', a, b, hroot, by omega⟩

/-- If a sign is at the root of what it is joined to, with all of the right chain on its right, then
no parentheses are left out. -/
theorem keeps_of_join {op : BinOp} {l r : Chain} {a b : Expr}
    (h : (join op l r).whole = .binary op a b) (hb : b.signs = r.whole.signs) :
    keepsLeft op l.more = true ∧ keepsRight (fun _ _ => false) op r.more = true := by
  -- A sign further to the right at the root would have too few signs in its right operand.
  have hsigns : signs r.more ≤ b.signs := by
    rw [hb, signs_whole]
    omega
  cases hop : op.isSum with
  | true =>
    refine ⟨by simp [keepsLeft, hop], ?_⟩
    rw [keepsRight, List.all_eq_true]
    intro o ho
    cases hsum : o.1.isSum with
    | false => simp [hop]
    | true =>
      rw [whole_join_sum hop] at h
      obtain ⟨_, _, b', hroot, -, hb'⟩ := root_of_sum ⟨o, ho, hsum⟩
      cases hroot.symm.trans h
      omega
  | false =>
    have hproducts : ∀ o ∈ (join op l r).more, o.1.isSum = false := by
      intro o ho
      by_contra hsum
      obtain ⟨_, _, _, hroot, hsum', -⟩ := root_of_sum ⟨o, ho, Bool.not_eq_false _ ▸ hsum⟩
      cases hroot.symm.trans h
      rw [hop] at hsum'
      cases hsum'
    obtain ⟨hleft, hright⟩ := List.forall_mem_append.mp hproducts
    have hmore : r.more = [] := by
      by_contra hne
      rw [whole_join_product hop hleft] at h
      obtain ⟨_, _, b', hroot, hb'⟩ := root_of_products hne (List.forall_mem_cons.mp hright).2
      cases hroot.symm.trans h
      omega
    refine ⟨?_, by simp [keepsRight, hmore]⟩
    simpa [keepsLeft, hop] using hleft

end Chain

theorem signs_regrouped (e : Expr) : e.regrouped.signs = e.signs := by
  induction e with
  | absent | number | var | imaginary | call | matrix | other => rfl
  | unary op e ih => exact ih
  | binary op l r ihl ihr =>
    by_cases hpow : op = .pow
    · subst hpow
      rw [regrouped_power]
      exact congrArg₂ (fun m n => m + n + 1) ihl ihr
    · rw [regrouped_binary hpow, Chain.signs_join, whole_operandChain, whole_operandChain, ihl, ihr]
      rfl

/-- The text is read as the expression itself only if no parentheses are left out. -/
theorem keeps_of_regrouped {e : Expr} (h : e.regrouped = e) :
    e.keeps (fun _ _ => false) = true := by
  have hmap {α : Type} {f : α → α} {l : List α} (h : l.map f = l) : ∀ x ∈ l, f x = x :=
    List.map_inj_left.mp (h.trans (List.map_id l).symm)
  induction e with
  | absent | number | var | imaginary | call | other => rfl
  | unary op e ih => exact ih (Expr.unary.inj h).2
  | binary op l r ihl ihr =>
    by_cases hpow : op = .pow
    · subst hpow
      rw [regrouped_power] at h
      obtain ⟨-, hl, hr⟩ := Expr.binary.inj h
      simp [keeps, ihl hl, ihr hr]
    · rw [regrouped_binary hpow] at h
      have hsigns : r.signs = (r.operandChain op).whole.signs := by
        rw [whole_operandChain, signs_regrouped]
      obtain ⟨hleft, hright⟩ := Chain.keeps_of_join h hsigns
      have hjoin := (Chain.rel_join regroups_eq hleft hright).trans h
      rw [whole_operandChain, whole_operandChain] at hjoin
      obtain ⟨-, hl, hr⟩ := Expr.binary.inj hjoin
      simp [keeps, ihl hl, ihr hr, hleft, hright]
  | matrix rows ih =>
    rw [regrouped_matrix] at h
    rw [keeps, keepsRows_eq, List.all_eq_true]
    intro r hr
    rw [List.all_eq_true]
    intro e he
    exact ih r hr e he (hmap (hmap (Expr.matrix.inj h) r hr) e he)

end Signs

end Expr
end Reckoner
