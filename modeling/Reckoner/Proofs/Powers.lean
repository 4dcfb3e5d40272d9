import Mathlib
import Reckoner.Builtin.Apply
import Reckoner.Proofs.Elimination

namespace Reckoner.RatMatrix
open Value

section Entries
variable {n : Nat} {a b p q r : RatMatrix}

theorem HasOrder.mulTimes (ha : a.HasOrder n) (k : Nat) (hr : r.HasOrder n) :
    (mulTimes a k r).HasOrder n ∧
      (RatMatrix.mulTimes a k r).entries n = r.entries n * a.entries n ^ k := by
  induction k generalizing r with
  | zero => exact ⟨hr, by rw [RatMatrix.mulTimes, pow_zero, mul_one]⟩
  | succ k ih =>
    obtain ⟨horder, hentries⟩ := ih (hr.mul ha)
    refine ⟨horder, ?_⟩
    rw [RatMatrix.mulTimes, hentries, hr.entries_mul ha, mul_assoc, ← pow_succ']

/-- Multiplying one by one comes to the power. -/
theorem HasOrder.powNat (ha : a.HasOrder n) (k : Nat) :
    (a.powNat k).HasOrder n ∧ (a.powNat k).entries n = a.entries n ^ k := by
  cases k with
  | zero => exact ⟨ha.identityLike, ha.entries_identityLike⟩
  | succ k =>
    obtain ⟨horder, hentries⟩ := ha.mulTimes k ha
    exact ⟨horder, hentries.trans (pow_succ' _ k).symm⟩

/-- What elimination finds is the inverse. -/
theorem HasOrder.entries_inverse? (ha : a.HasOrder n) (hb : a.inverse? = some b) :
    b.entries n = (a.entries n)⁻¹ :=
  (Matrix.inv_eq_left_inv (ha.inverse?_mul hb).2).symm

/-- Elimination finds an inverse if the determinant is not zero. -/
theorem HasOrder.inverse?_isSome (ha : a.HasOrder n) (hdet : (a.entries n).det ≠ 0) :
    ∃ b, a.inverse? = some b := by
  cases hb : a.inverse? with
  | none => exact absurd (ha.inverse?_eq_none hb) hdet
  | some b => exact ⟨b, rfl⟩

end Entries

/-- What the sign of powers makes of a matrix and an exponent. -/
def raised (a : RatMatrix) (q : Rat) : Except Error Value :=
  combine .pow (.matrix a) (.rational q)

section Powers
variable {n : Nat} {a b p q r : RatMatrix}

theorem raised_intCast (a : RatMatrix) (k : Int) : a.raised k = powMatrix a k := by
  simp only [raised, combine, power, Rat.den_intCast, Rat.num_intCast, if_true]

/-- A negative power is a power of the inverse, and fails as that does. -/
theorem HasOrder.powMatrix_eq (ha : a.HasOrder n) (k : Int) :
    powMatrix a k = if 0 ≤ k then .ok (.matrix (a.powNat k.toNat))
      else (fun r => .matrix (r.powNat k.natAbs)) <$> inverseMatrix a := by
  rw [powMatrix, ha.isSquare, Bool.not_true, if_neg Bool.false_ne_true]
  cases inverseMatrix a <;> rfl

/-- The power of a matrix has the power of its entries. -/
theorem HasOrder.raised_eq (ha : a.HasOrder n) (k : Int)
    (hk : 0 ≤ k ∨ (a.entries n).det ≠ 0) :
    ∃ p, a.raised k = .ok (.matrix p) ∧ p.HasOrder n ∧ p.entries n = a.entries n ^ k := by
  rw [raised_intCast, ha.powMatrix_eq]
  by_cases hpos : 0 ≤ k
  · obtain ⟨j, rfl⟩ := Int.eq_ofNat_of_zero_le hpos
    obtain ⟨horder, hentries⟩ := ha.powNat j
    exact ⟨a.powNat j, if_pos hpos, horder, by rw [hentries, zpow_natCast]⟩
  · obtain ⟨b, hb⟩ := ha.inverse?_isSome (hk.resolve_left hpos)
    obtain ⟨j, rfl⟩ := Int.exists_eq_neg_ofNat (Int.le_of_not_le hpos)
    obtain ⟨horder, hentries⟩ := (ha.inverse?_mul hb).1.powNat j
    refine ⟨b.powNat j, ?_, horder, ?_⟩
    · rw [if_neg hpos, inverseMatrix, if_pos ha.isSquare, hb, Int.natAbs_neg, Int.natAbs_natCast]
      rfl
    · rw [hentries, ha.entries_inverse? hb, Matrix.inv_pow', Matrix.zpow_neg_natCast]

theorem HasOrder.combine_matMul (hp : p.HasOrder n) (hq : q.HasOrder n) (hr : r.HasOrder n)
    (h : r.entries n = p.entries n * q.entries n) :
    combine .matMul (.matrix p) (.matrix q) = .ok (.matrix r) := by
  have hmul : p.mul q = r := (hp.mul hq).ext hr ((hp.entries_mul hq).trans h.symm)
  simp only [combine, starStar, matMul, hp.mul?_eq hq, hmul]

/-- Exponents add up, natural ones for every matrix and all for one with an inverse. -/
theorem HasOrder.raised_add (ha : a.HasOrder n) (k l : Int)
    (h : (0 ≤ k ∧ 0 ≤ l) ∨ (a.entries n).det ≠ 0) :
    ∃ p q r, a.raised k = .ok p ∧ a.raised l = .ok q ∧ a.raised (k + l : Int) = .ok r ∧
      combine .matMul p q = .ok r := by
  obtain ⟨p, hp, hpn, hpe⟩ := ha.raised_eq k (h.imp_left And.left)
  obtain ⟨q, hq, hqn, hqe⟩ := ha.raised_eq l (h.imp_left And.right)
  obtain ⟨r, hr, hrn, hre⟩ := ha.raised_eq (k + l) (h.imp_left fun h => Int.add_nonneg h.1 h.2)
  refine ⟨.matrix p, .matrix q, .matrix r, hp, hq, hr, hpn.combine_matMul hqn hrn ?_⟩
  rw [hpe, hqe, hre]
  rcases h with ⟨hk, hl⟩ | hdet
  · exact Matrix.zpow_add_of_nonneg hk hl
  · exact Matrix.zpow_add (Ne.isUnit hdet) k l

/-- The opposite exponent gives the inverse. -/
theorem HasOrder.raised_neg (ha : a.HasOrder n) (k : Int) (hdet : (a.entries n).det ≠ 0) :
    ∃ p r, a.raised k = .ok p ∧ a.raised (-k : Int) = .ok r ∧
      ∀ mode, Builtin.inv.apply mode p = .ok r := by
  obtain ⟨p, hp, hpn, hpe⟩ := ha.raised_eq k (.inr hdet)
  obtain ⟨r, hr, hrn, hre⟩ := ha.raised_eq (-k) (.inr hdet)
  have hunit : IsUnit (a.entries n).det := Ne.isUnit hdet
  have hpdet : (p.entries n).det ≠ 0 := by
    rw [hpe]
    exact (hunit.det_zpow k).ne_zero
  obtain ⟨b, hb⟩ := hpn.inverse?_isSome hpdet
  have hbr : b = r := by
    refine (hpn.inverse?_mul hb).1.ext hrn ?_
    rw [hpn.entries_inverse? hb, hpe, hre, Matrix.zpow_neg hunit]
  refine ⟨.matrix p, .matrix r, hp, hr, fun mode => ?_⟩
  have hinverse : inverse (.matrix p) = .ok (.matrix r) := hpn.inverse_eq_ok.mpr (hbr ▸ hb)
  exact hinverse

end Powers

/-- The laws of exponents for matrices. The first power is the matrix itself, so that the powers are
products of it. Only square ones have powers, with integral exponents, and negative ones if there is
an inverse. -/
theorem raised_laws (a : RatMatrix) :
    (a.height = a.width →
      a.raised 0 = .ok (.matrix a.identityLike) ∧ a.raised 1 = .ok (.matrix a) ∧
      (∀ m n : Int, (0 ≤ m ∧ 0 ≤ n) ∨ (∃ b, a.IsInverse b) →
        ∃ p q r, a.raised m = .ok p ∧ a.raised n = .ok q ∧ a.raised (m + n : Int) = .ok r ∧
          combine .matMul p q = .ok r) ∧
      ((∃ b, a.IsInverse b) → ∀ n : Int,
        ∃ p r, a.raised n = .ok p ∧ a.raised (-n : Int) = .ok r ∧
          ∀ mode, Builtin.inv.apply mode p = .ok r) ∧
      ((¬ ∃ b, a.IsInverse b) → ∀ n : Int, n < 0 → a.raised n = .error .singular)) ∧
    (a.height ≠ a.width → ∀ n : Int, a.raised n = .error .powerNotSquare) ∧
    (∀ q : Rat, q.den ≠ 1 → a.raised q = .error .exponentNotInteger) ∧
    Error.singular.kind = .value ∧ Error.powerNotSquare.kind = .value ∧
    Error.exponentNotInteger.kind = .type := by
  refine ⟨fun hsquare => ?_, fun hsquare n => ?_, fun q hq => ?_, rfl, rfl, rfl⟩
  · have ha : a.HasOrder a.height := ⟨rfl, hsquare.symm⟩
    have hdet := ha.exists_isInverse_iff
    refine ⟨?_, ?_, fun m n h => ?_, fun h n => ?_, fun h n hn => ?_⟩
    · obtain ⟨p, hp, hpn, hpe⟩ := ha.raised_eq 0 (.inl le_rfl)
      rw [zpow_zero, ← ha.entries_identityLike] at hpe
      rw [← hpn.ext ha.identityLike hpe]
      exact_mod_cast hp
    · obtain ⟨p, hp, hpn, hpe⟩ := ha.raised_eq 1 (.inl zero_le_one)
      obtain rfl : p = a := hpn.ext ha (hpe.trans (zpow_one _))
      exact_mod_cast hp
    · exact ha.raised_add m n (h.imp_right hdet.mp)
    · exact ha.raised_neg n (hdet.mp h)
    · have hnone : a.inverse? = none :=
        ha.inverse?_eq_none_iff.mpr (not_not.mp fun hne => h (hdet.mpr hne))
      rw [raised_intCast, ha.powMatrix_eq, if_neg (Int.not_le.mpr hn), inverseMatrix,
        if_pos ha.isSquare, hnone]
      rfl
  · have hnot : (!a.isSquare) = true := by
      rw [isSquare, beq_eq_false_iff_ne.mpr hsquare, Bool.not_false]
    rw [raised_intCast, powMatrix, if_pos hnot]
  · simp only [raised, combine, power, hq, if_false]

/-- The inverse of `swapped`. -/
def unswapped : RatMatrix :=
  build 2 2 (fun i j => if i = 0 then (5 * j - 3) / 2 else (1 - j) / 2) Nat.two_pos Nat.two_pos

/-- The matrix with the rows `1 2` and `2 4`. -/
def flat : RatMatrix :=
  build 2 2 (fun i j => (1 + i) * (1 + j)) Nat.two_pos Nat.two_pos

theorem raised_laws_swapped :
    (swapped.height = swapped.width ∧ ∃ b, swapped.IsInverse b) ∧
    swapped.raised 1 = .ok (.matrix swapped) ∧
    (∃ p q r, swapped.raised (-2 : Int) = .ok p ∧ swapped.raised (3 : Int) = .ok q ∧
      swapped.raised (-2 + 3 : Int) = .ok r ∧ combine .matMul p q = .ok r) ∧
    (∃ p r, swapped.raised (2 : Int) = .ok p ∧ swapped.raised (-2 : Int) = .ok r ∧
      Builtin.inv.apply .radians p = .ok r) ∧
    (flat.height = flat.width ∧ (¬ ∃ b, flat.IsInverse b) ∧
      flat.raised (-1 : Int) = .error .singular) ∧
    (singleRow.height ≠ singleRow.width ∧ singleRow.raised (2 : Int) = .error .powerNotSquare) ∧
    (1 / 2 : Rat).den ≠ 1 ∧ swapped.raised (1 / 2) = .error .exponentNotInteger := by
  have hinverse : ∃ b, swapped.IsInverse b :=
    ⟨unswapped, by decide +kernel, by decide +kernel⟩
  have hsingular : ¬ ∃ b, flat.IsInverse b := by
    have hflat : flat.HasOrder 2 := ⟨rfl, rfl⟩
    have hnone : flat.inverse? = none := by decide +kernel
    rw [hflat.exists_isInverse_iff, not_not]
    exact hflat.inverse?_eq_none hnone
  obtain ⟨-, hone, hadd, hneg, -⟩ := (raised_laws swapped).1 rfl
  obtain ⟨p, r, hp, hr, hinv⟩ := hneg hinverse 2
  refine ⟨⟨rfl, hinverse⟩, hone, hadd (-2) 3 (.inr hinverse), ⟨p, r, hp, hr, hinv .radians⟩,
    ⟨rfl, hsingular, ?_⟩, ⟨by decide, ?_⟩, by decide +kernel, ?_⟩
  · exact ((raised_laws flat).1 rfl).2.2.2.2 hsingular (-1) (by decide)
  · exact (raised_laws singleRow).2.1 (by decide) 2
  · exact (raised_laws swapped).2.2.1 (1 / 2) (by decide +kernel)

end Reckoner.RatMatrix
