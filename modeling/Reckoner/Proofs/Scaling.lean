import Mathlib
import Reckoner.Proofs.Gaussian
import Reckoner.Proofs.Product

namespace Reckoner

theorem GaussRat.mul_swap (z w : GaussRat) : z.mul w = w.mul z := by
  apply ext <;> simp only [mul] <;> ring

theorem RatMatrix.HasShape.block_scale {m : RatMatrix} {h w : Nat} (hm : m.HasShape h w) (q : Rat) :
    (m.scale q).block h w = q • m.block h w := by
  rw [RatMatrix.scale, hm.block_like]
  ext i j
  exact mul_comm _ q

namespace Value

/-- Operands that are to have a product in either order: two numbers, or a rational and a matrix. -/
inductive Multiplies : Value → Value → Prop where
  | numbers {u v : Value} (hu : u.isNumber = true) (hv : v.isNumber = true) : Multiplies u v
  | scaled (m : RatMatrix) (q : Rat) : Multiplies (matrix m) (rational q)
  | scales (q : Rat) (m : RatMatrix) : Multiplies (rational q) (matrix m)

def Commutes (u v : Value) : Prop :=
  ∃ w, combine .mul u v = .ok w ∧ combine .mul v u = .ok w

section Orders
variable {u v : Value}

theorem Commutes.symm (h : Commutes u v) : Commutes v u := by
  obtain ⟨w, huv, hvu⟩ := h
  exact ⟨w, hvu, huv⟩

/-- The product of two numbers depends on their parts only, and is a rational if both are. -/
theorem commutes_of_isNumber (hu : u.isNumber = true) (hv : v.isNumber = true) : Commutes u v := by
  obtain ⟨r, z, hz⟩ := exists_isGauss hu
  obtain ⟨t, w, hw⟩ := exists_isGauss hv
  have hadmits (p : GaussRat) : Admits .mul p := trivial
  obtain ⟨a, ha, hparts⟩ := combine_isGauss hz hw (hadmits w)
  obtain ⟨b, hb, hparts'⟩ := combine_isGauss hw hz (hadmits z)
  have hswap : onParts .mul w z = onParts .mul z w := GaussRat.mul_swap w z
  rw [Bool.and_comm, hswap] at hparts'
  exact ⟨a, ha, by rw [hb, hparts.unique hparts']⟩

theorem isNumber_of_toField? {x : GaussField} (h : u.toField? = some x) : u.isNumber = true := by
  cases u with
  | rational | complex => rfl
  | matrix | function | builtin | plain => cases h

/-- A matrix is scaled by a rational on its right. -/
theorem star_scaled (m : RatMatrix) (q : Rat) :
    combine .mul (matrix m) (rational q) = .ok (matrix (m.scale q)) := rfl

/-- A rational on the left of a matrix is refused, since the left operand alone decides what it is
multiplied with. -/
theorem star_scales (q : Rat) (m : RatMatrix) :
    combine .mul (rational q) (matrix m) = .error (.cannotCombine "multiply" .rational .matrix) :=
  rfl

theorem not_commutes_scaled (m : RatMatrix) (q : Rat) : ¬ Commutes (matrix m) (rational q) := by
  rintro ⟨w, -, hscales⟩
  cases (star_scales q m).symm.trans hscales

end Orders

/-- Operands that are to have a product in either order have one if they are numbers, namely that of
the field, and only then: a matrix times a rational is the matrix with every entry multiplied, but
that rational times the matrix is an error of the kinds of the operands. -/
theorem star_commutes_iff (u v : Value) (h : Multiplies u v) :
    (Commutes u v ↔ u.isNumber = true ∧ v.isNumber = true) ∧
    (∀ x y, u.toField? = some x → v.toField? = some y →
      ∃ w, combine .mul u v = .ok w ∧ combine .mul v u = .ok w ∧ w.toField? = some (x * y)) ∧
    (∀ m q, u = matrix m → v = rational q →
      (∃ p, combine .mul u v = .ok (matrix p) ∧ p.HasShape m.height m.width ∧
        p.block m.height m.width = q • m.block m.height m.width) ∧
      combine .mul v u = .error (.cannotCombine "multiply" .rational .matrix)) ∧
    (Error.cannotCombine "multiply" .rational .matrix).kind = .type := by
  refine ⟨?_, ?_, ?_, rfl⟩
  · constructor
    · intro hcommutes
      cases h with
      | numbers hu hv => exact ⟨hu, hv⟩
      | scaled m q => exact absurd hcommutes (not_commutes_scaled m q)
      | scales q m => exact absurd hcommutes.symm (not_commutes_scaled m q)
    · rintro ⟨hu, hv⟩
      exact commutes_of_isNumber hu hv
  · intro x y hx hy
    obtain ⟨p, hp, hfield⟩ :=
      combine_toField? .mul (· * ·) GaussRat.toField_mul hx hy fun _ _ => trivial
    obtain ⟨p', huv, hvu⟩ :=
      commutes_of_isNumber (isNumber_of_toField? hx) (isNumber_of_toField? hy)
    cases hp.symm.trans huv
    exact ⟨p, hp, hvu, hfield⟩
  · rintro m q rfl rfl
    have hm : m.HasShape m.height m.width := ⟨rfl, rfl⟩
    exact ⟨⟨m.scale q, star_scaled m q, hm.like _, hm.block_scale q⟩, star_scales q m⟩

/-- A rational and a complex number have one product in both orders, and a row has one with a
rational on its right only. -/
theorem star_commutes_iff_countingRow :
    let z := complex ⟨3, -4⟩
    (Multiplies (rational 2) z ∧ Commutes (rational 2) z ∧
      combine .mul z (rational 2) = .ok (complex ⟨6, -8⟩)) ∧
    (Multiplies (matrix RatMatrix.countingRow) (rational 2) ∧
      ¬ Commutes (matrix RatMatrix.countingRow) (rational 2) ∧
      combine .mul (rational 2) (matrix RatMatrix.countingRow) =
        .error (.cannotCombine "multiply" .rational .matrix)) := by
  intro z
  have hnumbers : Multiplies (rational 2) z := .numbers rfl rfl
  have hscaled : Multiplies (matrix RatMatrix.countingRow) (rational 2) := .scaled _ 2
  obtain ⟨hcommutes, -⟩ := star_commutes_iff _ _ hnumbers
  obtain ⟨hnot, -, hrow, -⟩ := star_commutes_iff _ _ hscaled
  refine ⟨⟨hnumbers, hcommutes.mpr ⟨rfl, rfl⟩, by with_unfolding_all rfl⟩, hscaled, fun h => ?_, ?_⟩
  · cases (hnot.mp h).1
  · exact (hrow _ 2 rfl rfl).2

end Value
end Reckoner
