import Mathlib
import Reckoner.Eval
import Reckoner.Proofs.Associativity

namespace Reckoner

/-- The field of Gaussian rationals: the rationals with a root of -1. -/
abbrev GaussField : Type :=
  QuadraticAlgebra ℚ (-1) 0

/-- No rational is a root of -1. -/
instance sq_ne_neg_one : Fact (∀ r : ℚ, r ^ 2 ≠ -1 + 0 * r) where
  out := by
    intro r hr
    have hpos : 0 ≤ r ^ 2 := sq_nonneg r
    rw [hr] at hpos
    norm_num at hpos

namespace GaussRat

def toField (z : GaussRat) : GaussField :=
  ⟨z.re, z.im⟩

theorem toField_add (z w : GaussRat) : (z.add w).toField = z.toField + w.toField := rfl

theorem toField_sub (z w : GaussRat) : (z.sub w).toField = z.toField - w.toField := rfl

theorem toField_neg (z : GaussRat) : z.neg.toField = -z.toField := rfl

theorem toField_mul (z w : GaussRat) : (z.mul w).toField = z.toField * w.toField := by
  ext
  · simp only [toField, mul, QuadraticAlgebra.re_mul]
    ring
  · simp only [toField, mul, QuadraticAlgebra.im_mul]
    ring

theorem norm_toField (z : GaussRat) : QuadraticAlgebra.norm z.toField = z.normSq := by
  rw [QuadraticAlgebra.norm_def, normSq]
  simp only [toField]
  ring

/-- Only zero has the absolute value zero. -/
theorem normSq_eq_zero_iff (z : GaussRat) : z.normSq = 0 ↔ z.toField = 0 := by
  rw [← norm_toField, QuadraticAlgebra.norm_eq_zero_iff_eq_zero]

theorem inv_toField (z : GaussRat) :
    z.toField⁻¹ = ⟨z.re / z.normSq, -z.im / z.normSq⟩ := by
  rw [QuadraticAlgebra.inv_def, norm_toField]
  ext
  · simp only [toField, QuadraticAlgebra.star_mk, QuadraticAlgebra.smul_mk, smul_eq_mul]
    ring
  · simp only [toField, QuadraticAlgebra.star_mk, QuadraticAlgebra.smul_mk, smul_eq_mul]
    ring

/-- Quotients are those of the field, also for the divisor zero. -/
theorem toField_quotient (z w : GaussRat) : (z.quotient w).toField = z.toField / w.toField := by
  rw [div_eq_mul_inv, inv_toField]
  ext
  · simp only [toField, quotient, QuadraticAlgebra.re_mul]
    ring
  · simp only [toField, quotient, QuadraticAlgebra.im_mul]
    ring

theorem inv?_eq_div? (z : GaussRat) : z.inv? = (ofRat 1).div? z := by
  have hparts : (ofRat 1).quotient z = ⟨z.re / z.normSq, -z.im / z.normSq⟩ := by
    apply ext <;> simp [quotient, ofRat]
  rw [div?_eq, hparts]
  rfl

end GaussRat

namespace Value
variable {r : Bool} {z : GaussRat} {u v : Value} {x y : GaussField}

def toField? : Value → Option GaussField
  | rational q => some q
  | complex z => some z.toField
  | _ => none

theorem IsGauss.toField?_eq (h : IsGauss r z v) : v.toField? = some z.toField := by
  cases h with
  | rational hre him =>
    apply congrArg some
    ext
    · exact hre.symm
    · exact him.symm
  | complex hre him => rw [toField?, GaussRat.ext hre him]

/-- Whatever stands for an element of the field is a number with its parts. -/
theorem exists_isGauss_of_toField? (h : v.toField? = some x) :
    ∃ r z, IsGauss r z v ∧ z.toField = x := by
  have hnumber : v.isNumber = true := by
    cases v with
    | rational | complex => rfl
    | matrix | function | builtin | plain => cases h
  obtain ⟨r, z, hz⟩ := exists_isGauss hnumber
  exact ⟨r, z, hz, Option.some.inj (hz.toField?_eq.symm.trans h)⟩

/-- A sign that is an operation of the field on the parts of numbers is one on numbers. -/
theorem combine_toField? (op : BinOp) (f : GaussField → GaussField → GaussField)
    (hf : ∀ z w, (onParts op z w).toField = f z.toField w.toField) (hu : u.toField? = some x)
    (hv : v.toField? = some y) (hop : ∀ w : GaussRat, w.toField = y → Admits op w) :
    ∃ w, combine op u v = .ok w ∧ w.toField? = some (f x y) := by
  obtain ⟨r, z, hz, rfl⟩ := exists_isGauss_of_toField? hu
  obtain ⟨t, w, hw, rfl⟩ := exists_isGauss_of_toField? hv
  obtain ⟨c, hc, hparts⟩ := combine_isGauss hz hw (hop w rfl)
  exact ⟨c, hc, by rw [hparts.toField?_eq, hf]⟩

theorem div_toField? (hu : u.toField? = some x) (hv : v.toField? = some y) (hy : y ≠ 0) :
    ∃ w, combine .div u v = .ok w ∧ w.toField? = some (x / y) := by
  apply combine_toField? .div (· / ·) GaussRat.toField_quotient hu hv
  intro w hw hzero
  exact hy (hw.symm.trans ((GaussRat.normSq_eq_zero_iff w).mp hzero))

/-- Division fails for a divisor that stands for zero, and for no other. -/
theorem div_eq_error_iff (hu : u.toField? = some x) (hv : v.toField? = some y) :
    combine .div u v = .error .divisionByZero ↔ y = 0 := by
  constructor
  · intro herror
    by_contra hy
    obtain ⟨w, hw, -⟩ := div_toField? hu hv hy
    cases herror.symm.trans hw
  · -- Zero comes as a rational or as a complex number, and each kind has its own check.
    rintro rfl
    obtain ⟨r, z, hz, -⟩ := exists_isGauss_of_toField? hu
    obtain ⟨t, w, hw, hzero⟩ := exists_isGauss_of_toField? hv
    have hnorm : w.normSq = 0 := (GaussRat.normSq_eq_zero_iff w).mpr hzero
    cases hw with
    | rational hre him =>
      have hq : w.re = 0 := congrArg QuadraticAlgebra.re hzero
      rw [← hre, hq]
      cases hz <;> rfl
    | complex hre him =>
      obtain rfl := GaussRat.ext hre him
      cases hz <;> simp [combine, div, divComplex, GaussRat.div?_eq, hnorm]

theorem negate_toField? (hu : u.toField? = some x) :
    ∃ w, Eval.negate .neg u = .ok w ∧ w.toField? = some (-x) := by
  cases u with
  | rational q =>
    cases hu
    exact ⟨rational (-q), rfl, congrArg some (Rat.cast_neg q)⟩
  | complex z =>
    cases hu
    exact ⟨complex z.neg, rfl, congrArg some z.toField_neg⟩
  | matrix | function | builtin | plain => cases hu

/-- The reciprocal is the quotient of one, and fails where the quotient does. -/
theorem inv_eq_div (hv : v.toField? = some y) (mode : AngleMode) :
    Builtin.inv.apply mode v = combine .div (rational 1) v := by
  cases v with
  | rational q => rfl
  | complex z =>
    simp only [Builtin.apply, Builtin.inverseOf, z.inv?_eq_div?]
    rfl
  | matrix | function | builtin | plain => cases hv

/-- Arithmetic on numbers is that of the field: sums, differences and products always have a value,
quotients and reciprocals unless the divisor is zero. -/
theorem arithmetic_in_field (u v : Value) (x y : GaussField) (hu : u.toField? = some x)
    (hv : v.toField? = some y) :
    (∃ w, combine .add u v = .ok w ∧ w.toField? = some (x + y)) ∧
    (∃ w, combine .sub u v = .ok w ∧ w.toField? = some (x - y)) ∧
    (∃ w, combine .mul u v = .ok w ∧ w.toField? = some (x * y)) ∧
    (y ≠ 0 → ∃ w, combine .div u v = .ok w ∧ w.toField? = some (x / y)) ∧
    (combine .div u v = .error .divisionByZero ↔ y = 0) ∧
    (∃ w, Eval.negate .neg u = .ok w ∧ w.toField? = some (-x)) ∧
    (∀ mode, Builtin.inv.apply mode v = combine .div (rational 1) v ∧
      (y ≠ 0 → ∃ w, Builtin.inv.apply mode v = .ok w ∧ w.toField? = some (1 / y)) ∧
      (Builtin.inv.apply mode v = .error .divisionByZero ↔ y = 0)) ∧
    Error.divisionByZero.kind = .zeroDivision := by
  refine ⟨?_, ?_, ?_, div_toField? hu hv, div_eq_error_iff hu hv, negate_toField? hu,
    fun mode => ?_, rfl⟩
  · exact combine_toField? .add (· + ·) GaussRat.toField_add hu hv fun _ _ => trivial
  · exact combine_toField? .sub (· - ·) GaussRat.toField_sub hu hv fun _ _ => trivial
  · exact combine_toField? .mul (· * ·) GaussRat.toField_mul hu hv fun _ _ => trivial
  · have hone : (rational 1).toField? = some 1 := congrArg some Rat.cast_one
    rw [inv_eq_div hv mode]
    exact ⟨rfl, div_toField? hone hv, div_eq_error_iff hone hv⟩

/-- A rational and a complex number, and a complex zero as the divisor. -/
theorem arithmetic_in_field_mixed :
    let u := rational (1 / 2)
    let v := complex ⟨3, -4⟩
    let zero := complex ⟨0, 0⟩
    let x : GaussField := ⟨1 / 2, 0⟩
    let y : GaussField := ⟨3, -4⟩
    (u.toField? = some x ∧ v.toField? = some y ∧ zero.toField? = some 0) ∧
    (∃ w, combine .mul u v = .ok w ∧ w.toField? = some (x * y)) ∧
    (∃ w, combine .div u v = .ok w ∧ w.toField? = some (x / y)) ∧
    (∃ w, Builtin.inv.apply .radians v = .ok w ∧ w.toField? = some (1 / y)) ∧
    combine .div v zero = .error .divisionByZero ∧
    Builtin.inv.apply .radians zero = .error .divisionByZero := by
  intro u v zero x y
  have hu : u.toField? = some x := rfl
  have hv : v.toField? = some y := rfl
  have hzero : zero.toField? = some 0 := rfl
  have hy : y ≠ 0 := by
    intro h
    have hre : (3 : ℚ) = 0 := congrArg QuadraticAlgebra.re h
    norm_num at hre
  obtain ⟨-, -, hmul, hdiv, -, -, hinv, -⟩ := arithmetic_in_field u v x y hu hv
  obtain ⟨-, -, -, -, hfails, -, hnone, -⟩ := arithmetic_in_field v zero y 0 hv hzero
  exact ⟨⟨hu, hv, hzero⟩, hmul, hdiv hy, (hinv .radians).2.1 hy, hfails.mpr rfl,
    (hnone .radians).2.2.mpr rfl⟩

end Value
end Reckoner
