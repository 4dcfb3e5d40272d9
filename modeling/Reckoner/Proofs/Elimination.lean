import Mathlib
import Reckoner.Proofs.Product

namespace Reckoner.RatMatrix

section Rows
variable {c : Nat} {p r : Row} {w : Nat → Rat}

def against (w : Nat → Rat) (r : Row) : Rat :=
  ∑ j ∈ Finset.range r.length, r.getD j 0 * w j

/-- All rows are orthogonal to `w`. Each step of the elimination keeps the vectors for which this is
so. -/
def Orthogonal (w : Nat → Rat) (rows : List Row) : Prop :=
  ∀ r ∈ rows, against w r = 0

theorem length_normalize (c : Nat) (r : Row) : (normalize c r).length = r.length := by
  simp [normalize]

theorem length_clear (h : r.length = p.length) : (clear c p r).length = p.length := by
  simp [clear, h]

theorem getD_normalize (c : Nat) (r : Row) (j : Nat) :
    (normalize c r).getD j 0 = r.getD j 0 / r.getD c 0 := by
  have hmap := List.getD_map (l := r) (d := 0) (n := j) (fun x => x / r.getD c 0)
  rwa [zero_div] at hmap

theorem getD_clear (h : r.length = p.length) (j : Nat) :
    (clear c p r).getD j 0 = r.getD j 0 - r.getD c 0 * p.getD j 0 := by
  by_cases hj : j < r.length
  · have hp : j < p.length := h ▸ hj
    simp [clear, List.getD_eq_getElem?_getD, hj, hp]
  · have hp : ¬ j < p.length := h ▸ hj
    simp [clear, List.getD_eq_getElem?_getD, hj, hp]

theorem against_normalize (w : Nat → Rat) (c : Nat) (r : Row) :
    against w (normalize c r) = against w r / r.getD c 0 := by
  simp only [against, length_normalize, getD_normalize, Finset.sum_div, div_mul_eq_mul_div]

theorem against_clear (h : r.length = p.length) (w : Nat → Rat) :
    against w (clear c p r) = against w r - r.getD c 0 * against w p := by
  simp only [against, length_clear h, getD_clear h, h, sub_mul, Finset.sum_sub_distrib,
    Finset.mul_sum, mul_assoc]

end Rows

section Steps
variable {N c k : Nat} {done todo rest rows : List Row} {p : Row}

/-- The row that was passed over stands where the pivot stood. -/
theorem exchange_eq_some {r : Row} {rs : List Row} (h : exchange c r rs = some (p, rest)) :
    p.getD c 0 ≠ 0 ∧ (r :: rs).Perm (p :: rest) := by
  induction rs generalizing rest with
  | nil => cases h
  | cons q qs ih =>
    rw [exchange] at h
    split at h
    next hq =>
      cases h
      exact ⟨hq, .swap p r qs⟩
    next =>
      obtain ⟨⟨_, rest'⟩, hqs, he⟩ := Option.map_eq_some_iff.mp h
      cases he
      obtain ⟨hp, hperm⟩ := ih hqs
      refine ⟨hp, ?_⟩
      calc List.Perm (r :: q :: qs) (q :: r :: qs) := .swap q r qs
        List.Perm _ (q :: p :: rest') := hperm.cons q
        List.Perm _ (p :: q :: rest') := .swap p q rest'

theorem exchange_eq_none {r : Row} {rs : List Row} (h : exchange c r rs = none) :
    ∀ q ∈ rs, q.getD c 0 = 0 := by
  induction rs with
  | nil => exact List.forall_mem_nil _
  | cons q qs ih =>
    rw [exchange] at h
    split at h
    · cases h
    next hq => exact List.forall_mem_cons.mpr ⟨not_not.mp hq, ih (Option.map_eq_none_iff.mp h)⟩

/-- Only the order of the rows changes, and the first has an entry in the column. -/
theorem takePivot_eq_some (h : takePivot c todo = some (p, rest)) :
    p.getD c 0 ≠ 0 ∧ todo.Perm (p :: rest) := by
  cases todo with
  | nil => cases h
  | cons r rs =>
    rw [takePivot] at h
    split at h
    next hr =>
      cases h
      exact ⟨hr, .refl _⟩
    next => exact exchange_eq_some h

theorem takePivot_eq_none (h : takePivot c todo = none) : ∀ r ∈ todo, r.getD c 0 = 0 := by
  cases todo with
  | nil => exact List.forall_mem_nil _
  | cons r rs =>
    rw [takePivot] at h
    split at h
    · cases h
    next hr => exact List.forall_mem_cons.mpr ⟨not_not.mp hr, exchange_eq_none h⟩

/-- Rows of `N` entries of which the first `c` columns are done. -/
structure Reduced (N c : Nat) (done todo : List Row) : Prop where
  length_done : done.length = c
  length_row : ∀ r ∈ done ++ todo, r.length = N
  done_entry : ∀ i < c, ∀ j < c, (done.getD i []).getD j 0 = if i = j then 1 else 0
  todo_entry : ∀ r ∈ todo, ∀ j < c, r.getD j 0 = 0

def nextDone (c : Nat) (p : Row) (done : List Row) : List Row :=
  done.map (clear c (normalize c p)) ++ [normalize c p]

def nextTodo (c : Nat) (p : Row) (rest : List Row) : List Row :=
  rest.map (clear c (normalize c p))

theorem eliminate_succ (h : takePivot c todo = some (p, rest)) :
    eliminate (k + 1) c done todo =
      eliminate k (c + 1) (nextDone c p done) (nextTodo c p rest) := by
  simp only [eliminate, h, nextDone, nextTodo]

/-- The pivot of a step, and the other rows, have `N` entries. -/
theorem Reduced.length_pivot (h : Reduced N c done todo)
    (hp : takePivot c todo = some (p, rest)) :
    p.length = N ∧ ∀ r ∈ done ++ rest, r.length = N := by
  have hperm := (takePivot_eq_some hp).2
  refine ⟨h.length_row p (List.mem_append_right _ (hperm.mem_iff.mpr List.mem_cons_self)), ?_⟩
  intro r hr
  rcases List.mem_append.mp hr with hr | hr
  · exact h.length_row r (List.mem_append_left _ hr)
  · exact h.length_row r
      (List.mem_append_right _ (hperm.mem_iff.mpr (List.mem_cons_of_mem p hr)))

/-- A step keeps the vectors that all rows are orthogonal to. -/
theorem Reduced.orthogonal_iff (h : Reduced N c done todo)
    (hp : takePivot c todo = some (p, rest)) (w : Nat → Rat) :
    Orthogonal w (done ++ todo) ↔ Orthogonal w (nextDone c p done ++ nextTodo c p rest) := by
  obtain ⟨hne, hperm⟩ := takePivot_eq_some hp
  obtain ⟨hlen, hrows⟩ := h.length_pivot hp
  have hpivot : against w (normalize c p) = 0 ↔ against w p = 0 := by
    rw [against_normalize, div_eq_zero_iff, or_iff_left hne]
  have hclear (hw : against w (normalize c p) = 0) (r : Row) (hr : r ∈ done ++ rest) :
      against w (clear c (normalize c p) r) = against w r := by
    rw [against_clear ((hrows r hr).trans (length_normalize c p ▸ hlen.symm)), hw, mul_zero,
      sub_zero]
  -- Both sides say that the pivot is orthogonal, and then that the other rows are.
  have hold : Orthogonal w (done ++ todo) ↔
      against w p = 0 ∧ ∀ r ∈ done ++ rest, against w r = 0 := by
    simp only [Orthogonal, List.mem_append, hperm.mem_iff, List.mem_cons]
    grind
  have hnew : Orthogonal w (nextDone c p done ++ nextTodo c p rest) ↔
      against w (normalize c p) = 0 ∧
        ∀ r ∈ done ++ rest, against w (clear c (normalize c p) r) = 0 := by
    simp only [Orthogonal, nextDone, nextTodo, List.mem_append, List.mem_map, List.mem_singleton]
    grind
  rw [hold, hnew, hpivot]
  refine and_congr_right fun hw => ?_
  exact forall₂_congr fun r hr => by rw [hclear (hpivot.mpr hw) r hr]

/-- The pivot's row has zeros before its column and a one in it. -/
theorem Reduced.getD_pivot (h : Reduced N c done todo) (hp : takePivot c todo = some (p, rest)) :
    (normalize c p).getD c 0 = 1 ∧ ∀ j < c, (normalize c p).getD j 0 = 0 := by
  obtain ⟨hne, hperm⟩ := takePivot_eq_some hp
  have hmem : p ∈ todo := hperm.mem_iff.mpr List.mem_cons_self
  constructor
  · rw [getD_normalize, div_self hne]
  · intro j hj
    rw [getD_normalize, h.todo_entry p hmem j hj, zero_div]

/-- The other rows have a zero in the pivot's column, and what they had before it. -/
theorem Reduced.getD_cleared (h : Reduced N c done todo) (hp : takePivot c todo = some (p, rest))
    {r : Row} (hr : r ∈ done ++ rest) :
    (clear c (normalize c p) r).getD c 0 = 0 ∧
      ∀ j < c, (clear c (normalize c p) r).getD j 0 = r.getD j 0 := by
  obtain ⟨hlen, hrows⟩ := h.length_pivot hp
  obtain ⟨hself, hbefore⟩ := h.getD_pivot hp
  have hentry := getD_clear (c := c) ((hrows r hr).trans (length_normalize c p ▸ hlen.symm))
  constructor
  · rw [hentry, hself, mul_one, sub_self]
  · intro j hj
    rw [hentry, hbefore j hj, mul_zero, sub_zero]

theorem Reduced.length_next (h : Reduced N c done todo) (hp : takePivot c todo = some (p, rest)) :
    ∀ r ∈ nextDone c p done ++ nextTodo c p rest, r.length = N := by
  obtain ⟨hlen, hrows⟩ := h.length_pivot hp
  have hp' : (normalize c p).length = N := (length_normalize c p).trans hlen
  intro r hr
  simp only [nextDone, nextTodo, List.mem_append, List.mem_map, List.mem_singleton] at hr
  rcases hr with (⟨r, hr, rfl⟩ | rfl) | ⟨r, hr, rfl⟩
  · rw [length_clear ((hrows r (List.mem_append_left _ hr)).trans hp'.symm), hp']
  · exact hp'
  · rw [length_clear ((hrows r (List.mem_append_right _ hr)).trans hp'.symm), hp']

/-- A step has one more column done. -/
theorem Reduced.step (h : Reduced N c done todo) (hp : takePivot c todo = some (p, rest)) :
    Reduced N (c + 1) (nextDone c p done) (nextTodo c p rest) := by
  obtain ⟨-, hperm⟩ := takePivot_eq_some hp
  obtain ⟨hself, hbefore⟩ := h.getD_pivot hp
  constructor
  · simp [nextDone, h.length_done]
  · exact h.length_next hp
  · intro i hi j hj
    rcases Nat.lt_succ_iff_lt_or_eq.mp hi with hi | rfl
    · have hidone : i < done.length := h.length_done.symm ▸ hi
      have hrow : (nextDone c p done).getD i [] = clear c (normalize c p) (done.getD i []) := by
        simp [nextDone, List.getD_eq_getElem?_getD, List.getElem?_append_left, hidone]
      have hin : done.getD i [] ∈ done ++ rest := by
        simp [List.getD_eq_getElem?_getD, hidone]
      obtain ⟨hzero, hkept⟩ := h.getD_cleared hp hin
      rw [hrow]
      rcases Nat.lt_succ_iff_lt_or_eq.mp hj with hj | rfl
      · rw [hkept j hj, h.done_entry i hi j hj]
      · rw [hzero, if_neg hi.ne]
    · have hrow : (nextDone i p done).getD i [] = normalize i p := by
        simp [nextDone, List.getD_eq_getElem?_getD, h.length_done]
      rw [hrow]
      rcases Nat.lt_succ_iff_lt_or_eq.mp hj with hj | rfl
      · rw [hbefore j hj, if_neg hj.ne']
      · rw [hself, if_pos rfl]
  · intro r hmap j hj
    obtain ⟨r, hr, rfl⟩ := List.mem_map.mp hmap
    have htodo : r ∈ todo := hperm.mem_iff.mpr (List.mem_cons_of_mem p hr)
    obtain ⟨hzero, hkept⟩ := h.getD_cleared hp (List.mem_append_right _ hr)
    rcases Nat.lt_succ_iff_lt_or_eq.mp hj with hj | rfl
    · rw [hkept j hj, h.todo_entry r htodo j hj]
    · exact hzero

/-- The rows at the end have all columns done, and are orthogonal to what those at the start are
orthogonal to. -/
theorem Reduced.eliminate_some (h : Reduced N c done todo)
    (hrows : eliminate k c done todo = some rows) :
    ∃ left, Reduced N (c + k) rows left ∧
      ∀ w, Orthogonal w (done ++ todo) → Orthogonal w rows := by
  induction k generalizing c done todo with
  | zero =>
    cases hrows
    exact ⟨todo, h, fun w hw r hr => hw r (List.mem_append_left _ hr)⟩
  | succ k ih =>
    cases hp : takePivot c todo with
    | none => simp [eliminate, hp] at hrows
    | some found =>
      obtain ⟨p, rest⟩ := found
      rw [eliminate_succ hp] at hrows
      obtain ⟨left, hleft, hw⟩ := ih (h.step hp) hrows
      refine ⟨left, ?_, fun w hold => hw w ((h.orthogonal_iff hp w).mp hold)⟩
      rwa [Nat.add_assoc, Nat.add_comm 1 k] at hleft

/-- The weights that take the column `c` back to the columns before it. -/
def dependence (c : Nat) (done : List Row) (j : Nat) : Rat :=
  if j < c then -(done.getD j []).getD c 0 else if j = c then 1 else 0

theorem Reduced.against_dependence (h : Reduced N c done todo) (hc : c < N) {r : Row}
    (hr : r ∈ done ++ todo) : against (dependence c done) r =
      (∑ j ∈ Finset.range c, r.getD j 0 * -(done.getD j []).getD c 0) + r.getD c 0 := by
  have hzero (j : Nat) (_ : j ∈ Finset.range N) (hj : j ∉ Finset.range (c + 1)) :
      r.getD j 0 * dependence c done j = 0 := by
    rw [Finset.mem_range] at hj
    rw [dependence, if_neg (by omega), if_neg (by omega), mul_zero]
  rw [against, h.length_row r hr,
    ← Finset.sum_subset (Finset.range_mono (Nat.succ_le_of_lt hc)) hzero,
    Finset.sum_range_succ]
  congr 1
  · refine Finset.sum_congr rfl fun j hj => ?_
    rw [dependence, if_pos (Finset.mem_range.mp hj)]
  · simp [dependence]

/-- All rows are orthogonal to the weights of a column without a pivot. -/
theorem Reduced.orthogonal_dependence (h : Reduced N c done todo) (hc : c < N)
    (hp : takePivot c todo = none) : Orthogonal (dependence c done) (done ++ todo) := by
  intro r hr
  rw [h.against_dependence hc hr]
  rcases List.mem_append.mp hr with hr | hr
  · -- A row that is done has a one in its own column, which takes its entry in column `c` away.
    obtain ⟨i, hi, rfl⟩ := List.getElem_of_mem hr
    have hic : i < c := h.length_done ▸ hi
    have hrow : done.getD i [] = done[i] := by simp [List.getD_eq_getElem?_getD, hi]
    have hterm (j : Nat) (hj : j ∈ Finset.range c) :
        done[i].getD j 0 * -(done.getD j []).getD c 0 =
          if j = i then -(done.getD i []).getD c 0 else 0 := by
      have hone := h.done_entry i hic j (Finset.mem_range.mp hj)
      rw [hrow] at hone
      rw [hone]
      by_cases hij : i = j
      · simp [hij]
      · simp [hij, Ne.symm hij]
    rw [Finset.sum_congr rfl hterm, Finset.sum_ite_eq', if_pos (Finset.mem_range.mpr hic), hrow,
      neg_add_cancel]
  · rw [takePivot_eq_none hp r hr, add_zero]
    refine Finset.sum_eq_zero fun j hj => ?_
    rw [h.todo_entry r hr j (Finset.mem_range.mp hj), zero_mul]

/-- Where a pivot is missing, all rows are orthogonal to a vector other than zero. -/
theorem Reduced.eliminate_none (h : Reduced N c done todo) (hN : c + k ≤ N)
    (hnone : eliminate k c done todo = none) :
    ∃ w : Nat → Rat, (∃ j < c + k, w j ≠ 0) ∧ (∀ j, c + k ≤ j → w j = 0) ∧
      Orthogonal w (done ++ todo) := by
  induction k generalizing c done todo with
  | zero => cases hnone
  | succ k ih =>
    cases hp : takePivot c todo with
    | none =>
      refine ⟨dependence c done, ⟨c, by omega, by simp [dependence]⟩, ?_,
        h.orthogonal_dependence (by omega) hp⟩
      intro j hj
      rw [dependence, if_neg (by omega), if_neg (by omega)]
    | some found =>
      obtain ⟨p, rest⟩ := found
      rw [eliminate_succ hp] at hnone
      obtain ⟨w, ⟨j, hj, hne⟩, hzero, hw⟩ := ih (h.step hp) (by omega) hnone
      exact ⟨w, ⟨j, by omega, hne⟩, fun j hj => hzero j (by omega), (h.orthogonal_iff hp w).mpr hw⟩

end Steps

section Square
variable {n : Nat} {a b m : RatMatrix}

structure HasOrder (m : RatMatrix) (n : Nat) : Prop where
  height_eq : m.height = n
  width_eq : m.width = n

def entries (n : Nat) (m : RatMatrix) : Matrix (Fin n) (Fin n) ℚ :=
  Matrix.of fun i j => m.get i j

theorem HasOrder.isSquare (h : m.HasOrder n) : m.isSquare = true := by
  rw [RatMatrix.isSquare, h.height_eq, h.width_eq, beq_self_eq_true]

theorem HasOrder.mul (ha : a.HasOrder n) (hb : b.HasOrder n) : (a.mul b).HasOrder n :=
  ⟨ha.height_eq, hb.width_eq⟩

theorem HasOrder.like (h : m.HasOrder n) (f : Nat → Nat → Rat) : (m.like f).HasOrder n :=
  ⟨h.height_eq, h.width_eq⟩

theorem HasOrder.identityLike (h : m.HasOrder n) : m.identityLike.HasOrder n :=
  h.like _

theorem HasOrder.mul?_eq (ha : a.HasOrder n) (hb : b.HasOrder n) :
    a.mul? b = some (a.mul b) := by
  rw [mul?, if_pos (ha.width_eq.trans hb.height_eq.symm)]

theorem HasOrder.hasShape (h : m.HasOrder n) : m.HasShape n n :=
  ⟨h.height_eq, h.width_eq⟩

theorem HasOrder.entries_like (h : m.HasOrder n) (f : Nat → Nat → Rat) :
    (m.like f).entries n = Matrix.of fun (i j : Fin n) => f i j :=
  h.hasShape.block_like f

theorem HasOrder.entries_identityLike (h : m.HasOrder n) : m.identityLike.entries n = 1 := by
  rw [RatMatrix.identityLike, h.entries_like]
  ext i j
  simp only [Matrix.of_apply, Matrix.one_apply, Fin.ext_iff]

theorem HasOrder.entries_mul (ha : a.HasOrder n) (hb : b.HasOrder n) :
    (a.mul b).entries n = a.entries n * b.entries n :=
  ha.hasShape.block_mul hb.hasShape

/-- A square matrix is known by its entries. -/
theorem HasOrder.ext (ha : a.HasOrder n) (hb : b.HasOrder n) (h : a.entries n = b.entries n) :
    a = b :=
  ha.hasShape.ext hb.hasShape h

def augmentedRow (m : RatMatrix) (i : Nat) : Row :=
  (List.range (2 * m.height)).map fun j =>
    if j < m.height then m.get i j else if j - m.height = i then 1 else 0

theorem augmented_eq (m : RatMatrix) :
    m.augmented = (List.range m.height).map m.augmentedRow := rfl

theorem against_halves {r : Row} (hr : r.length = 2 * n) (w : Nat → Rat) :
    against w r = (∑ j ∈ Finset.range n, r.getD j 0 * w j) +
      ∑ k ∈ Finset.range n, r.getD (n + k) 0 * w (n + k) := by
  rw [against, hr, two_mul, Finset.sum_range_add]

theorem against_augmentedRow {i : Nat} (hn : m.height = n) (hi : i < n) (w : Nat → Rat) :
    against w (m.augmentedRow i) =
      (∑ j ∈ Finset.range n, m.get i j * w j) + w (n + i) := by
  have hlen : (m.augmentedRow i).length = 2 * n := by simp [augmentedRow, hn]
  have hleft (j : Nat) (hj : j ∈ Finset.range n) :
      (m.augmentedRow i).getD j 0 * w j = m.get i j * w j := by
    have hj' := Finset.mem_range.mp hj
    simp [augmentedRow, hn, List.getD_eq_getElem?_getD, hj', show j < 2 * n by omega]
  have hright (k : Nat) (hk : k ∈ Finset.range n) :
      (m.augmentedRow i).getD (n + k) 0 * w (n + k) = if k = i then w (n + i) else 0 := by
    have hk' := Finset.mem_range.mp hk
    by_cases hki : k = i
    · simp [augmentedRow, hn, List.getD_eq_getElem?_getD, hki, show n + i < 2 * n by omega]
    · simp [augmentedRow, hn, List.getD_eq_getElem?_getD, hki, show n + k < 2 * n by omega]
  rw [against_halves hlen, Finset.sum_congr rfl hleft, Finset.sum_congr rfl hright,
    Finset.sum_ite_eq', if_pos (Finset.mem_range.mpr hi)]

theorem HasOrder.reduced (h : m.HasOrder n) : Reduced (2 * n) 0 [] m.augmented where
  length_done := rfl
  length_row := by
    intro r hr
    rw [List.nil_append, augmented_eq] at hr
    obtain ⟨i, -, rfl⟩ := List.mem_map.mp hr
    simp [augmentedRow, h.height_eq]
  done_entry := by
    intro i hi
    cases hi
  todo_entry := by
    intro r _ j hj
    cases hj

/-- The weights that take a row's entry in column `j` less what its right half makes of the
matrix there. -/
def column (m : RatMatrix) (n j k : Nat) : Rat :=
  if k < n then if k = j then 1 else 0 else -m.get (k - n) j

theorem against_column {r : Row} {j : Nat} (hr : r.length = 2 * n) (hj : j < n) :
    against (m.column n j) r =
      r.getD j 0 - ∑ k ∈ Finset.range n, r.getD (n + k) 0 * m.get k j := by
  have hleft (k : Nat) (hk : k ∈ Finset.range n) :
      r.getD k 0 * m.column n j k = if k = j then r.getD j 0 else 0 := by
    rw [column, if_pos (Finset.mem_range.mp hk)]
    by_cases hkj : k = j
    · simp [hkj]
    · simp [hkj]
  have hright (k : Nat) : r.getD (n + k) 0 * m.column n j (n + k) =
      -(r.getD (n + k) 0 * m.get k j) := by
    rw [column, if_neg (by omega), Nat.add_sub_cancel_left, mul_neg]
  rw [against_halves hr, Finset.sum_congr rfl hleft, Finset.sum_ite_eq',
    if_pos (Finset.mem_range.mpr hj), Finset.sum_congr rfl fun k _ => hright k,
    Finset.sum_neg_distrib, sub_eq_add_neg]

/-- At the start the right half makes of the matrix what the left half is. -/
theorem HasOrder.orthogonal_column (h : m.HasOrder n) {j : Nat} (hj : j < n) :
    Orthogonal (m.column n j) m.augmented := by
  intro r hr
  rw [augmented_eq, h.height_eq] at hr
  obtain ⟨i, hi, rfl⟩ := List.mem_map.mp hr
  have hterm (k : Nat) (hk : k ∈ Finset.range n) :
      m.get i k * m.column n j k = if k = j then m.get i j else 0 := by
    rw [column, if_pos (Finset.mem_range.mp hk)]
    by_cases hkj : k = j
    · simp [hkj]
    · simp [hkj]
  rw [against_augmentedRow h.height_eq (List.mem_range.mp hi), Finset.sum_congr rfl hterm,
    Finset.sum_ite_eq', if_pos (Finset.mem_range.mpr hj), column, if_neg (by omega),
    Nat.add_sub_cancel_left, add_neg_cancel]

/-- What elimination gives is an inverse from the left. -/
theorem HasOrder.inverse?_mul (h : m.HasOrder n) (hb : m.inverse? = some b) :
    b.HasOrder n ∧ b.entries n * m.entries n = 1 := by
  obtain ⟨rows, hrows, rfl⟩ := Option.map_eq_some_iff.mp hb
  refine ⟨h.like _, ?_⟩
  rw [h.height_eq] at hrows ⊢
  obtain ⟨left, hreduced, horthogonal⟩ := h.reduced.eliminate_some hrows
  rw [Nat.zero_add] at hreduced
  rw [h.entries_like]
  ext i j
  have hmem : rows.getD i [] ∈ rows := by
    simp [List.getD_eq_getElem?_getD, hreduced.length_done]
  have hlen := hreduced.length_row _ (List.mem_append_left left hmem)
  have hzero := horthogonal _ (h.orthogonal_column j.isLt) _ hmem
  rw [against_column hlen j.isLt, hreduced.done_entry i i.isLt j j.isLt, sub_eq_zero,
    Finset.sum_range] at hzero
  simp only [Matrix.mul_apply, Matrix.one_apply, Fin.ext_iff]
  exact hzero.symm

/-- Elimination fails only for a matrix that takes a vector other than zero to zero. -/
theorem HasOrder.inverse?_eq_none (h : m.HasOrder n) (hnone : m.inverse? = none) :
    (m.entries n).det = 0 := by
  have helim := Option.map_eq_none_iff.mp hnone
  rw [h.height_eq] at helim
  obtain ⟨w, ⟨j, hj, hne⟩, hzero, hw⟩ := h.reduced.eliminate_none (by omega) helim
  rw [Nat.zero_add] at hj hzero
  refine Matrix.exists_mulVec_eq_zero_iff.mp ⟨fun j => w j, ?_, ?_⟩
  · exact fun hfun => hne (congrFun hfun ⟨j, hj⟩)
  · ext i
    have hmem : m.augmentedRow i ∈ m.augmented :=
      List.mem_map_of_mem (List.mem_range.mpr (h.height_eq.symm ▸ i.isLt))
    have hrow := hw _ hmem
    rw [against_augmentedRow h.height_eq i.isLt, hzero (n + i) (by omega), add_zero,
      Finset.sum_range] at hrow
    exact hrow

/-- Elimination fails just for the matrices whose determinant is zero. -/
theorem HasOrder.inverse?_eq_none_iff (h : m.HasOrder n) :
    m.inverse? = none ↔ (m.entries n).det = 0 := by
  refine ⟨h.inverse?_eq_none, fun hdet => ?_⟩
  cases hb : m.inverse? with
  | none => rfl
  | some b =>
    have hunit := congrArg Matrix.det (h.inverse?_mul hb).2
    rw [Matrix.det_mul, hdet, mul_zero, Matrix.det_one] at hunit
    exact absurd hunit zero_ne_one

/-- `b` is the inverse of `a` from both sides. -/
def IsInverse (a b : RatMatrix) : Prop :=
  a.mul? b = some a.identityLike ∧ b.mul? a = some a.identityLike

/-- For square matrices an inverse from one side is one from both. -/
theorem HasOrder.isInverse_iff (ha : a.HasOrder n) (hb : b.HasOrder n) :
    a.IsInverse b ↔ a.entries n * b.entries n = 1 := by
  have hright : a.mul b = a.identityLike ↔ a.entries n * b.entries n = 1 := by
    rw [← ha.entries_mul hb, ← ha.entries_identityLike]
    exact ⟨fun h => congrArg (entries n) h, (ha.mul hb).ext ha.identityLike⟩
  have hleft : b.mul a = a.identityLike ↔ b.entries n * a.entries n = 1 := by
    rw [← hb.entries_mul ha, ← ha.entries_identityLike]
    exact ⟨fun h => congrArg (entries n) h, (hb.mul ha).ext ha.identityLike⟩
  rw [IsInverse, ha.mul?_eq hb, hb.mul?_eq ha, Option.some.injEq, Option.some.injEq, hright, hleft,
    mul_eq_one_comm, and_self]

/-- A matrix has the shape of its inverse. -/
theorem IsInverse.hasOrder (h : a.IsInverse b) (ha : a.HasOrder n) : b.HasOrder n := by
  obtain ⟨hab, hba⟩ := h
  unfold mul? at hab hba
  split at hab
  next hw =>
    split at hba
    next hw' => exact ⟨hw.symm.trans ha.width_eq, hw'.trans ha.height_eq⟩
    · cases hba
  · cases hab

/-- A square matrix has an inverse if and only if its determinant is not zero. -/
theorem HasOrder.exists_isInverse_iff (h : m.HasOrder n) :
    (∃ b, m.IsInverse b) ↔ (m.entries n).det ≠ 0 := by
  constructor
  · rintro ⟨b, hb⟩ hdet
    have hunit := congrArg Matrix.det ((h.isInverse_iff (hb.hasOrder h)).mp hb)
    rw [Matrix.det_mul, hdet, zero_mul, Matrix.det_one] at hunit
    exact zero_ne_one hunit
  · intro hdet
    cases hb : m.inverse? with
    | none => exact absurd (h.inverse?_eq_none hb) hdet
    | some b =>
      obtain ⟨hbn, hmul⟩ := h.inverse?_mul hb
      exact ⟨b, (h.isInverse_iff hbn).mpr (mul_eq_one_comm.mp hmul)⟩

theorem HasOrder.inverse_eq_ok (h : m.HasOrder n) :
    Value.inverse (.matrix m) = .ok (.matrix b) ↔ m.inverse? = some b := by
  rw [Value.inverse, Value.inverseMatrix, if_pos h.isSquare]
  cases m.inverse? <;> simp

theorem HasOrder.inverse_eq_singular (h : m.HasOrder n) :
    Value.inverse (.matrix m) = .error .singular ↔ m.inverse? = none := by
  rw [Value.inverse, Value.inverseMatrix, if_pos h.isSquare]
  cases m.inverse? <;> simp

end Square

/-- The inverse of a square matrix is found, or the matrix has none: then its determinant is zero.
Other matrices are refused. -/
theorem inverse_of_square (m : RatMatrix) :
    (m.height = m.width →
      ((∃ b, Value.inverse (.matrix m) = .ok (.matrix b) ∧ b.height = m.height ∧
          b.width = m.width ∧
          Value.matMul (.matrix m) (.matrix b) = .ok (.matrix m.identityLike) ∧
          Value.matMul (.matrix b) (.matrix m) = .ok (.matrix m.identityLike)) ∨
        Value.inverse (.matrix m) = .error .singular) ∧
      (Value.inverse (.matrix m) = .error .singular ↔ (m.entries m.height).det = 0) ∧
      (Value.inverse (.matrix m) = .error .singular ↔ ¬ ∃ b, m.IsInverse b)) ∧
    (m.height ≠ m.width → Value.inverse (.matrix m) = .error .inverseNotSquare) ∧
    Error.singular.kind = .value ∧ Error.inverseNotSquare.kind = .value ∧
    Error.singular.message = "Matrix is singular and non-invertible" := by
  refine ⟨fun hsquare => ?_, fun hsquare => ?_, rfl, rfl, rfl⟩
  · have h : m.HasOrder m.height := ⟨rfl, hsquare.symm⟩
    refine ⟨?_, ?_, ?_⟩
    · cases hb : m.inverse? with
      | none => exact .inr (h.inverse_eq_singular.mpr hb)
      | some b =>
        obtain ⟨hbn, hmul⟩ := h.inverse?_mul hb
        obtain ⟨hright, hleft⟩ := (h.isInverse_iff hbn).mpr (mul_eq_one_comm.mp hmul)
        refine .inl ⟨b, h.inverse_eq_ok.mpr hb, hbn.height_eq, hbn.width_eq.trans hsquare, ?_, ?_⟩
        · simp only [Value.matMul, hright]
        · simp only [Value.matMul, hleft]
    · rw [h.inverse_eq_singular, h.inverse?_eq_none_iff]
    · rw [h.inverse_eq_singular, h.inverse?_eq_none_iff, h.exists_isInverse_iff, not_not]
  · have hnot : ¬ m.isSquare = true := fun h => hsquare (beq_iff_eq.mp h)
    rw [Value.inverse, Value.inverseMatrix, if_neg hnot]
    rfl

def swapped : RatMatrix :=
  build 2 2 (fun i j => if i = 0 then 2 * j else 1 + 2 * j) Nat.two_pos Nat.two_pos

def singleRow : RatMatrix :=
  build 1 2 (fun _ j => 1 + j) Nat.one_pos Nat.two_pos

theorem inverse_of_square_swapped :
    (swapped.height = swapped.width ∧ ∃ b, Value.inverse (.matrix swapped) = .ok (.matrix b) ∧
      b.rows = [[-3 / 2, 1], [1 / 2, 0]] ∧
      Value.matMul (.matrix b) (.matrix swapped) = .ok (.matrix swapped.identityLike)) ∧
    singleRow.height ≠ singleRow.width ∧
    Value.inverse (.matrix singleRow) = .error .inverseNotSquare := by
  have hrows : swapped.inverse?.map RatMatrix.rows = some [[-3 / 2, 1], [1 / 2, 0]] := by
    decide +kernel
  obtain ⟨b, hb, hrows⟩ := Option.map_eq_some_iff.mp hrows
  have hsquare : swapped.HasOrder 2 := ⟨rfl, rfl⟩
  have hinverse := hsquare.inverse_eq_ok.mpr hb
  obtain ⟨hcases, -⟩ := (inverse_of_square swapped).1 rfl
  rw [hinverse] at hcases
  obtain ⟨b', hb', -, -, -, hmul⟩ := hcases.resolve_right nofun
  cases hb'
  exact ⟨⟨rfl, b, hinverse, hrows, hmul⟩, by decide,
    (inverse_of_square singleRow).2.1 (by decide)⟩

end Reckoner.RatMatrix
