import Mathlib
import Reckoner.Proofs.Product

namespace Reckoner.RatMatrix

/-- Matrices that fit, one of which is a single row or a single column. -/
structure MeetsVector (a b : RatMatrix) : Prop where
  fits : a.width = b.height
  vector : (a.height = 1 ∨ a.width = 1) ∨ b.height = 1 ∨ b.width = 1

section Rules
variable {a b : RatMatrix} {h w : Nat}

theorem sameShape_iff : a.sameShape b = true ↔ a.height = b.height ∧ a.width = b.width := by
  simp [sameShape]

theorem meetsVector_iff :
    (a.width == b.height && (a.isVector || b.isVector)) = true ↔ a.MeetsVector b := by
  simp only [isVector, Bool.and_eq_true, Bool.or_eq_true, beq_iff_eq]
  exact ⟨fun h => ⟨h.1, h.2⟩, fun h => ⟨h.fits, h.vector⟩⟩

theorem HasShape.block_hadamard (ha : a.HasShape h w) (b : RatMatrix) :
    (a.pointwise (· * ·) b).block h w = (a.block h w).hadamard (b.block h w) := by
  rw [RatMatrix.pointwise, ha.block_like]
  rfl

/-- Of single numbers there is but one product. -/
theorem HasShape.pointwise_eq_mul (ha : a.HasShape 1 1) (hb : b.HasShape 1 1) :
    a.pointwise (· * ·) b = a.mul b := by
  apply (ha.pointwise _ b).ext (ha.mul hb)
  rw [ha.block_hadamard, ha.block_mul hb]
  ext i j
  rw [Matrix.hadamard_apply, Matrix.mul_apply, Fin.sum_univ_one, Fin.fin_one_eq_zero i,
    Fin.fin_one_eq_zero j]

/-- Matrices of one shape that fit, one of them a vector, are single numbers. -/
theorem MeetsVector.single (hv : a.MeetsVector b) (hs : a.sameShape b = true) :
    a.HasShape 1 1 ∧ b.HasShape 1 1 := by
  obtain ⟨hheight, hwidth⟩ := sameShape_iff.mp hs
  have hfits := hv.fits
  have hone : a.height = 1 := by
    rcases hv.vector with (h | h) | h | h <;> omega
  exact ⟨⟨hone, by omega⟩, ⟨by omega, by omega⟩⟩

/-- Single numbers are under both rules, and there the rules agree. -/
theorem star_of_sameShape (hs : a.sameShape b = true) :
    Value.combine .mul (.matrix a) (.matrix b) = .ok (.matrix (a.pointwise (· * ·) b)) := by
  rw [Value.combine, Value.star, if_pos hs]

theorem star_of_meetsVector (hv : a.MeetsVector b) :
    Value.combine .mul (.matrix a) (.matrix b) = .ok (.matrix (a.mul b)) := by
  by_cases hs : a.sameShape b = true
  · obtain ⟨ha, hb⟩ := hv.single hs
    rw [star_of_sameShape hs, ha.pointwise_eq_mul hb]
  · rw [Value.combine, Value.star, if_neg hs, if_pos (meetsVector_iff.mpr hv)]

/-- Other matrices have no star, also where they fit. -/
theorem star_of_neither (hv : ¬ a.MeetsVector b) (hs : ¬ a.sameShape b = true) :
    Value.combine .mul (.matrix a) (.matrix b) = .error .starShape := by
  rw [Value.combine, Value.star, if_neg hs, if_neg (meetsVector_iff.not.mpr hv)]

/-- Whatever stands before a column, or after a row, fits under the rule for vectors. -/
theorem meetsVector_of_row (ha : a.HasShape 1 h) (hb : b.HasShape h w) : a.MeetsVector b :=
  ⟨ha.width_eq.trans hb.height_eq.symm, .inl (.inl ha.height_eq)⟩

theorem meetsVector_of_column (ha : a.HasShape h w) (hb : b.HasShape w 1) : a.MeetsVector b :=
  ⟨ha.width_eq.trans hb.height_eq.symm, .inr (.inr hb.width_eq)⟩

end Rules

/-- The star is the product of rows and columns for matrices that fit, one of them a vector, the
product entry by entry for matrices of one shape, and an error for all others. A row, a matrix and a
column that fit have one product, a single number, however they are grouped. -/
theorem star_coherent (a b : RatMatrix) :
    (a.MeetsVector b → ∃ p, Value.combine .mul (.matrix a) (.matrix b) = .ok (.matrix p) ∧
      Value.matMul (.matrix a) (.matrix b) = .ok (.matrix p) ∧ p.HasShape a.height b.width ∧
      p.block a.height b.width = a.block a.height a.width * b.block a.width b.width) ∧
    (a.height = b.height → a.width = b.width →
      ∃ p, Value.combine .mul (.matrix a) (.matrix b) = .ok (.matrix p) ∧
        p.HasShape a.height a.width ∧
        p.block a.height a.width =
          (a.block a.height a.width).hadamard (b.block a.height a.width)) ∧
    (¬ a.MeetsVector b → ¬ (a.height = b.height ∧ a.width = b.width) →
      Value.combine .mul (.matrix a) (.matrix b) = .error .starShape) ∧
    Error.starShape.kind = .value ∧
    (∀ w : RatMatrix, a.height = 1 → a.width = b.height → b.width = w.height → w.width = 1 →
      ∃ p q r, Value.combine .mul (.matrix a) (.matrix b) = .ok p ∧
        Value.combine .mul (.matrix b) (.matrix w) = .ok q ∧
        Value.combine .mul p (.matrix w) = .ok (.matrix r) ∧
        Value.combine .mul (.matrix a) q = .ok (.matrix r) ∧ r.HasShape 1 1) := by
  have ha : a.HasShape a.height a.width := ⟨rfl, rfl⟩
  refine ⟨fun hv => ?_, fun hheight hwidth => ?_, fun hv hs => ?_, rfl,
    fun w hrow hab hbw hcolumn => ?_⟩
  · have hb : b.HasShape a.width b.width := ⟨hv.fits.symm, rfl⟩
    exact ⟨a.mul b, star_of_meetsVector hv, ha.matMul_eq hb, ha.mul hb, ha.block_mul hb⟩
  · exact ⟨a.pointwise (· * ·) b, star_of_sameShape (sameShape_iff.mpr ⟨hheight, hwidth⟩),
      ha.pointwise _ b, ha.block_hadamard b⟩
  · exact star_of_neither hv (sameShape_iff.not.mpr hs)
  · have hv : a.HasShape 1 a.width := ⟨hrow, rfl⟩
    have hb : b.HasShape a.width b.width := ⟨hab.symm, rfl⟩
    have hw : w.HasShape b.width 1 := ⟨hbw.symm, hcolumn⟩
    refine ⟨_, _, (a.mul b).mul w, star_of_meetsVector (meetsVector_of_row hv hb),
      star_of_meetsVector (meetsVector_of_column hb hw),
      star_of_meetsVector (meetsVector_of_column (hv.mul hb) hw), ?_, (hv.mul hb).mul hw⟩
    rw [star_of_meetsVector (meetsVector_of_row hv (hb.mul hw)), mul_regroup w hab]

/-- A row, a matrix and a column have the product 60 either way; a row is multiplied with itself
entry by entry, and two matrices that fit have no star. -/
theorem star_coherent_countingRow :
    (countingRow.MeetsVector evensOdds ∧ ∃ p,
      Value.combine .mul (.matrix countingRow) (.matrix evensOdds) = .ok (.matrix p) ∧
      Value.matMul (.matrix countingRow) (.matrix evensOdds) = .ok (.matrix p)) ∧
    (∃ p, Value.combine .mul (.matrix countingRow) (.matrix countingRow) = .ok (.matrix p) ∧
      p.HasShape 1 2) ∧
    (evensOdds.width = 3 ∧ ¬ evensOdds.MeetsVector (identity 3 (Nat.succ_pos 2)) ∧
      Value.combine .mul (.matrix evensOdds) (.matrix (identity 3 (Nat.succ_pos 2))) =
        .error .starShape) ∧
    (∃ p q r, Value.combine .mul (.matrix countingRow) (.matrix evensOdds) = .ok p ∧
      Value.combine .mul (.matrix evensOdds) (.matrix countingColumn) = .ok q ∧
      Value.combine .mul p (.matrix countingColumn) = .ok (.matrix r) ∧
      Value.combine .mul (.matrix countingRow) q = .ok (.matrix r) ∧ r.rows = [[60]]) := by
  obtain ⟨hrow, -, -, -, hgroup⟩ := star_coherent countingRow evensOdds
  obtain ⟨-, hentries, -⟩ := star_coherent countingRow countingRow
  obtain ⟨-, -, hneither, -⟩ := star_coherent evensOdds (identity 3 (Nat.succ_pos 2))
  have hmeets : countingRow.MeetsVector evensOdds := ⟨rfl, .inl (.inl rfl)⟩
  have hnot : ¬ evensOdds.MeetsVector (identity 3 (Nat.succ_pos 2)) :=
    meetsVector_iff.not.mp (by decide)
  refine ⟨⟨hmeets, ?_⟩, ?_, ⟨rfl, hnot, hneither hnot (by decide)⟩, ?_⟩
  · obtain ⟨p, hstar, hproduct, -⟩ := hrow hmeets
    exact ⟨p, hstar, hproduct⟩
  · obtain ⟨p, hstar, hshape, -⟩ := hentries rfl rfl
    exact ⟨p, hstar, hshape⟩
  · obtain ⟨p, q, r, hp, hq, hr, hr', -⟩ := hgroup countingColumn rfl rfl rfl rfl
    have hvalue : (countingRow.mul evensOdds).mul countingColumn = r := by
      cases (star_of_meetsVector hmeets).symm.trans hp
      cases (star_of_meetsVector ⟨rfl, .inl (.inl rfl)⟩).symm.trans hr
      rfl
    exact ⟨p, q, r, hp, hq, hr, hr', by rw [← hvalue]; decide +kernel⟩

end Reckoner.RatMatrix
