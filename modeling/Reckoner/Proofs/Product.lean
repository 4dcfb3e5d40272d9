import Mathlib
import Reckoner.Proofs.Associativity

namespace Reckoner.RatMatrix

section Entries
variable {m a b : RatMatrix} {i j : Nat}

def get? (m : RatMatrix) (i j : Nat) : Option Rat :=
  m.rows[i]?.bind fun r => r[j]?

theorem get?_eq_get (hi : i < m.height) (hj : j < m.width) : m.get? i j = some (m.get i j) := by
  have hrow : i < m.rows.length := m.length_rows.symm ▸ hi
  have hentry : j < m.rows[i].length := m.length_row _ (List.getElem_mem hrow) ▸ hj
  simp [get?, get, List.getD_eq_getElem?_getD, hrow, hentry]

/-- The rows of a matrix are those of its entries. -/
theorem rows_eq_table (m : RatMatrix) : m.rows = table m.height m.width m.get := by
  apply List.ext_getElem
  · simp [table, m.length_rows]
  intro i hi _
  have hrow : m.rows[i].length = m.width := m.length_row _ (List.getElem_mem hi)
  apply List.ext_getElem
  · simp [table, hrow]
  intro j hj _
  simp [table, get, List.getD_eq_getElem?_getD, hi, hj]

/-- The rows of a matrix are accepted as rows of a matrix. -/
theorem ofRows_rows (m : RatMatrix) : ofRows m.rows = .ok m := by
  obtain ⟨h, w, rows, hh, hw, hlen, hrow⟩ := m
  cases rows with
  | nil => exact absurd hlen hh.ne
  | cons r rs =>
    obtain ⟨hr, hrs⟩ := List.forall_mem_cons.mp hrow
    subst hlen hr
    rw [ofRows, dif_pos hw, dif_pos hrs]
    rfl

/-- The product of a row and a column, with every entry looked up where it has to be. -/
def dot? (a b : RatMatrix) (i j : Nat) : Option Rat :=
  (List.range a.width).foldlM (fun t k => do return t + (← a.get? i k) * (← b.get? k j)) 0

/-- The rows of the product, with every entry looked up where it has to be. -/
def product? (a b : RatMatrix) : Option (List (List Rat)) :=
  (List.range a.height).mapM fun i => (List.range b.width).mapM fun j => dot? a b i j

theorem foldlM_eq_some {α β : Type} {f : β → α → Option β} {g : β → α → β} {l : List α}
    (h : ∀ k ∈ l, ∀ t, f t k = some (g t k)) (t : β) : l.foldlM f t = some (l.foldl g t) := by
  induction l generalizing t with
  | nil => rfl
  | cons k ks ih =>
    obtain ⟨hk, hks⟩ := List.forall_mem_cons.mp h
    rw [List.foldlM_cons, hk t, List.foldl_cons]
    exact ih hks (g t k)

theorem mapM_eq_some {α β : Type} {f : α → Option β} {g : α → β} {l : List α}
    (h : ∀ x ∈ l, f x = some (g x)) : l.mapM f = some (l.map g) := by
  induction l with
  | nil => rfl
  | cons x xs ih =>
    obtain ⟨hx, hxs⟩ := List.forall_mem_cons.mp h
    rw [List.mapM_cons, hx, ih hxs]
    rfl

/-- Where rows and columns fit, no entry is missing and none is made up. -/
theorem dot?_eq_dot (h : a.width = b.height) (hi : i < a.height) (hj : j < b.width) :
    dot? a b i j = some (dot a b i j) := by
  apply foldlM_eq_some
  intro k hk t
  have hk' := List.mem_range.mp hk
  -- The width of the one bounds its columns, and the rows of the other as they fit.
  rw [get?_eq_get hi hk', get?_eq_get (h ▸ hk') hj]
  rfl

/-- No entry is looked up where there is none. -/
theorem product?_eq_rows (h : a.width = b.height) : product? a b = some (a.mul b).rows := by
  apply mapM_eq_some
  intro i hi
  apply mapM_eq_some
  intro j hj
  exact dot?_eq_dot h (List.mem_range.mp hi) (List.mem_range.mp hj)

end Entries

structure HasShape (m : RatMatrix) (h w : Nat) : Prop where
  height_eq : m.height = h
  width_eq : m.width = w

/-- The first `w` entries of the first `h` rows. -/
def block (h w : Nat) (m : RatMatrix) : Matrix (Fin h) (Fin w) ℚ :=
  Matrix.of fun i j => m.get i j

/-- Ones on the diagonal. -/
def identity (n : Nat) (hn : 0 < n) : RatMatrix :=
  build n n (fun i j => if i = j then 1 else 0) hn hn

namespace HasShape
variable {h w n : Nat} {a b c m : RatMatrix}

theorem sameShape (ha : a.HasShape h w) (hb : b.HasShape h w) : a.sameShape b = true := by
  rw [RatMatrix.sameShape, ha.height_eq, ha.width_eq, hb.height_eq, hb.width_eq, beq_self_eq_true,
    beq_self_eq_true, Bool.and_self]

/-- A matrix of a given shape is its block. -/
theorem ext (ha : a.HasShape h w) (hb : b.HasShape h w) (hab : a.block h w = b.block h w) :
    a = b := by
  have hget (i j : Nat) (hi : i < h) (hj : j < w) : a.get i j = b.get i j :=
    congrFun (congrFun hab ⟨i, hi⟩) ⟨j, hj⟩
  have hrows : a.rows = b.rows := by
    rw [rows_eq_table a, rows_eq_table b, ha.height_eq, ha.width_eq, hb.height_eq, hb.width_eq]
    refine List.map_congr_left fun i hi => List.map_congr_left fun j hj => ?_
    exact hget i j (List.mem_range.mp hi) (List.mem_range.mp hj)
  obtain ⟨ha, hw⟩ := ha
  obtain ⟨hb, hw'⟩ := hb
  cases a
  cases b
  simp_all

theorem identity (n : Nat) (hn : 0 < n) : (identity n hn).HasShape n n :=
  ⟨rfl, rfl⟩

theorem like (hm : m.HasShape h w) (f : Nat → Nat → Rat) : (m.like f).HasShape h w :=
  ⟨hm.height_eq, hm.width_eq⟩

theorem pointwise (ha : a.HasShape h w) (f : Rat → Rat → Rat) (b : RatMatrix) :
    (a.pointwise f b).HasShape h w :=
  ha.like _

theorem mul (ha : a.HasShape h n) (hb : b.HasShape n w) : (a.mul b).HasShape h w :=
  ⟨ha.height_eq, hb.width_eq⟩

theorem block_like (hm : m.HasShape h w) (f : Nat → Nat → Rat) :
    (m.like f).block h w = Matrix.of fun (i : Fin h) (j : Fin w) => f i j := by
  ext i j
  exact get_build _ _ (hm.height_eq.symm ▸ i.isLt) (hm.width_eq.symm ▸ j.isLt)

theorem block_identity (n : Nat) (hn : 0 < n) : (RatMatrix.identity n hn).block n n = 1 := by
  ext i j
  rw [block, Matrix.of_apply, RatMatrix.identity, get_build _ _ i.isLt j.isLt, Matrix.one_apply]
  simp only [Fin.ext_iff]

theorem block_add (ha : a.HasShape h w) (b : RatMatrix) :
    (a.pointwise (· + ·) b).block h w = a.block h w + b.block h w := by
  rw [RatMatrix.pointwise, ha.block_like]
  rfl

/-- The product of rows and columns is the product of matrices of the library, so its laws pass
over. -/
theorem block_mul (ha : a.HasShape h n) (hb : b.HasShape n w) :
    (a.mul b).block h w = a.block h n * b.block n w := by
  ext i j
  have hget : (a.mul b).get i j = dot a b i j :=
    get_build _ _ (ha.height_eq.symm ▸ i.isLt) (hb.width_eq.symm ▸ j.isLt)
  rw [Matrix.mul_apply, block, Matrix.of_apply, hget, dot_eq_sum, ha.width_eq,
    Finset.sum_range fun k => a.get i k * b.get k j]
  rfl

/-- Matrices that fit have a product. -/
theorem matMul_eq (ha : a.HasShape h n) (hb : b.HasShape n w) :
    Value.matMul (.matrix a) (.matrix b) = .ok (.matrix (a.mul b)) := by
  rw [Value.matMul, mul?, if_pos (ha.width_eq.trans hb.height_eq.symm)]

/-- Matrices of one shape have a sum. -/
theorem add_eq (ha : a.HasShape h w) (hb : b.HasShape h w) :
    Value.add (.matrix a) (.matrix b) = .ok (.matrix (a.pointwise (· + ·) b)) := by
  rw [Value.add, if_pos (ha.sameShape hb)]

/-- Sums may be multiplied out on both sides. -/
theorem mul_add (ha : a.HasShape h n) (hb : b.HasShape n w) (hc : c.HasShape n w) :
    a.mul (b.pointwise (· + ·) c) = (a.mul b).pointwise (· + ·) (a.mul c) := by
  apply (ha.mul (hb.pointwise _ c)).ext ((ha.mul hb).pointwise _ (a.mul c))
  rw [ha.block_mul (hb.pointwise _ c), hb.block_add, (ha.mul hb).block_add, ha.block_mul hb,
    ha.block_mul hc, Matrix.mul_add]

theorem add_mul (ha : a.HasShape h n) (hb : b.HasShape h n) (hc : c.HasShape n w) :
    (a.pointwise (· + ·) b).mul c = (a.mul c).pointwise (· + ·) (b.mul c) := by
  apply ((ha.pointwise _ b).mul hc).ext ((ha.mul hc).pointwise _ (b.mul c))
  rw [(ha.pointwise _ b).block_mul hc, ha.block_add, (ha.mul hc).block_add, ha.block_mul hc,
    hb.block_mul hc, Matrix.add_mul]

theorem identity_mul (ha : a.HasShape h w) (hh : 0 < h) : (RatMatrix.identity h hh).mul a = a := by
  apply ((identity h hh).mul ha).ext ha
  rw [(identity h hh).block_mul ha, block_identity, Matrix.one_mul]

theorem mul_identity (ha : a.HasShape h w) (hw : 0 < w) : a.mul (RatMatrix.identity w hw) = a := by
  apply (ha.mul (identity w hw)).ext ha
  rw [ha.block_mul (identity w hw), block_identity, Matrix.mul_one]

end HasShape

/-- Matrices have a product if and only if they fit. It is the product of the library, worked out
without a look at an entry that is not there, and it obeys the laws of a product. -/
theorem matMul_laws (a b : RatMatrix) :
    (a.width = b.height → ∃ p rows, Value.matMul (.matrix a) (.matrix b) = .ok (.matrix p) ∧
      p.height = a.height ∧ p.width = b.width ∧ product? a b = some rows ∧ ofRows rows = .ok p ∧
      p.block a.height b.width = a.block a.height a.width * b.block a.width b.width) ∧
    (a.width ≠ b.height → Value.matMul (.matrix a) (.matrix b) = .error .productShape) ∧
    Error.productShape.kind = .value ∧
    (∀ c : RatMatrix, a.width = b.height → b.width = c.height → ∃ p q r,
      Value.matMul (.matrix a) (.matrix b) = .ok p ∧ Value.matMul (.matrix b) (.matrix c) = .ok q ∧
      Value.matMul p (.matrix c) = .ok r ∧ Value.matMul (.matrix a) q = .ok r) ∧
    (∀ c : RatMatrix, a.width = b.height → b.height = c.height → b.width = c.width → ∃ t p q r,
      Value.add (.matrix b) (.matrix c) = .ok t ∧ Value.matMul (.matrix a) t = .ok r ∧
      Value.matMul (.matrix a) (.matrix b) = .ok p ∧ Value.matMul (.matrix a) (.matrix c) = .ok q ∧
      Value.add p q = .ok r) ∧
    (∀ c : RatMatrix, a.height = b.height → a.width = b.width → a.width = c.height → ∃ t p q r,
      Value.add (.matrix a) (.matrix b) = .ok t ∧ Value.matMul t (.matrix c) = .ok r ∧
      Value.matMul (.matrix a) (.matrix c) = .ok p ∧ Value.matMul (.matrix b) (.matrix c) = .ok q ∧
      Value.add p q = .ok r) ∧
    Value.matMul (.matrix (identity a.height a.height_pos)) (.matrix a) = .ok (.matrix a) ∧
    Value.matMul (.matrix a) (.matrix (identity a.width a.width_pos)) = .ok (.matrix a) := by
  have ha : a.HasShape a.height a.width := ⟨rfl, rfl⟩
  refine ⟨fun hab => ?_, fun hab => ?_, rfl, fun c hab hbc => ?_, fun c hab hh hw => ?_,
    fun c hh hw hac => ?_, ?_, ?_⟩
  · have hb : b.HasShape a.width b.width := ⟨hab.symm, rfl⟩
    exact ⟨a.mul b, (a.mul b).rows, ha.matMul_eq hb, rfl, rfl, product?_eq_rows hab,
      ofRows_rows (a.mul b), ha.block_mul hb⟩
  · rw [Value.matMul, mul?, if_neg hab]
  · have hb : b.HasShape a.width b.width := ⟨hab.symm, rfl⟩
    have hc : c.HasShape b.width c.width := ⟨hbc.symm, rfl⟩
    refine ⟨_, _, _, ha.matMul_eq hb, hb.matMul_eq hc, (ha.mul hb).matMul_eq hc, ?_⟩
    rw [ha.matMul_eq (hb.mul hc), mul_regroup c hab]
  · have hb : b.HasShape a.width b.width := ⟨hab.symm, rfl⟩
    have hc : c.HasShape a.width b.width := ⟨hh.symm.trans hab.symm, hw.symm⟩
    refine ⟨_, _, _, _, hb.add_eq hc, ha.matMul_eq (hb.pointwise _ c), ha.matMul_eq hb,
      ha.matMul_eq hc, ?_⟩
    rw [(ha.mul hb).add_eq (ha.mul hc), ha.mul_add hb hc]
  · have hb : b.HasShape a.height a.width := ⟨hh.symm, hw.symm⟩
    have hc : c.HasShape a.width c.width := ⟨hac.symm, rfl⟩
    refine ⟨_, _, _, _, ha.add_eq hb, (ha.pointwise _ b).matMul_eq hc, ha.matMul_eq hc,
      hb.matMul_eq hc, ?_⟩
    rw [(ha.mul hc).add_eq (hb.mul hc), ha.add_mul hb hc]
  · rw [(HasShape.identity _ _).matMul_eq ha, ha.identity_mul]
  · rw [ha.matMul_eq (HasShape.identity _ _), ha.mul_identity]

/-- The matrix with the rows `0 2 4` and `1 3 5`. -/
def evensOdds : RatMatrix :=
  build 2 3 (fun i j => i + 2 * j) Nat.two_pos (Nat.succ_pos 2)

/-- The column `1 2 3`. -/
def countingColumn : RatMatrix :=
  build 3 1 (fun i _ => 1 + i) (Nat.succ_pos 2) Nat.one_pos

/-- The row `1 2`. -/
def countingRow : RatMatrix :=
  build 1 2 (fun _ j => 1 + j) Nat.one_pos Nat.two_pos

/-- Products of a matrix, a column and a row, with the column and the row also added to
themselves. -/
theorem matMul_laws_countingColumn :
    (evensOdds.width = countingColumn.height ∧
      ∃ p, Value.matMul (.matrix evensOdds) (.matrix countingColumn) = .ok (.matrix p) ∧
        product? evensOdds countingColumn = some [[16], [22]] ∧ ofRows [[16], [22]] = .ok p) ∧
    (countingColumn.width = countingRow.height ∧ ∃ p q r,
      Value.matMul (.matrix evensOdds) (.matrix countingColumn) = .ok p ∧
      Value.matMul (.matrix countingColumn) (.matrix countingRow) = .ok q ∧
      Value.matMul p (.matrix countingRow) = .ok r ∧
      Value.matMul (.matrix evensOdds) q = .ok r) ∧
    (∃ t p r, Value.add (.matrix countingColumn) (.matrix countingColumn) = .ok t ∧
      Value.matMul (.matrix evensOdds) t = .ok r ∧
      Value.matMul (.matrix evensOdds) (.matrix countingColumn) = .ok p ∧
      Value.add p p = .ok r) ∧
    (∃ t p r, Value.add (.matrix evensOdds) (.matrix evensOdds) = .ok t ∧
      Value.matMul t (.matrix countingColumn) = .ok r ∧
      Value.matMul (.matrix evensOdds) (.matrix countingColumn) = .ok p ∧
      Value.add p p = .ok r) ∧
    countingRow.width ≠ countingColumn.height ∧
    Value.matMul (.matrix countingRow) (.matrix countingColumn) = .error .productShape := by
  obtain ⟨hproduct, -, -, hassoc, hleft, -⟩ := matMul_laws evensOdds countingColumn
  obtain ⟨-, -, -, -, -, hright, -⟩ := matMul_laws evensOdds evensOdds
  obtain ⟨-, hshape, -⟩ := matMul_laws countingRow countingColumn
  refine ⟨⟨rfl, ?_⟩, ⟨rfl, hassoc countingRow rfl rfl⟩, ?_, ?_, by decide, hshape (by decide)⟩
  · obtain ⟨p, rows, hp, -, -, hrows, hof, -⟩ := hproduct rfl
    have hentries : product? evensOdds countingColumn = some [[16], [22]] := by decide +kernel
    cases hrows.symm.trans hentries
    exact ⟨p, hp, hentries, hof⟩
  · obtain ⟨t, p, q, r, ht, hr, hp, hq, hsum⟩ := hleft countingColumn rfl rfl rfl
    cases hp.symm.trans hq
    exact ⟨t, p, r, ht, hr, hp, hsum⟩
  · obtain ⟨t, p, q, r, ht, hr, hp, hq, hsum⟩ := hright countingColumn rfl rfl rfl
    cases hp.symm.trans hq
    exact ⟨t, p, r, ht, hr, hp, hsum⟩

end Reckoner.RatMatrix
