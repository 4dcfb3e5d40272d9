import Mathlib
import Reckoner.Double.Complex
import Reckoner.Proofs.Double.Unpacked

namespace Reckoner.Double

section Roots

/-- The bits found so far and the weight of the next one enclose the root. -/
theorem sqrtBits_eq {n : Nat} (k r : Nat) (hlow : r * r ≤ n)
    (hhigh : n < (r + 2 ^ k) * (r + 2 ^ k)) : sqrtBits n k r = n.sqrt := by
  induction k generalizing r with
  | zero => exact Nat.eq_sqrt.mpr ⟨hlow, hhigh⟩
  | succ k ih =>
    rw [sqrtBits, Nat.one_shiftLeft]
    split
    · rename_i hle
      apply ih _ hle
      rwa [add_assoc, ← two_mul, ← pow_succ']
    · rename_i hlt
      exact ih _ hlow (not_le.mp hlt)

/-- Square roots are found bit by bit. -/
theorem floorSqrt_eq (n : Nat) : floorSqrt n = n.sqrt := by
  apply sqrtBits_eq
  · exact Nat.zero_le n
  · rw [zero_add, ← pow_add]
    exact Nat.lt_log2_self.trans_le (Nat.pow_le_pow_right two_pos (by omega))

/-- The root of a square is exact. -/
theorem nearSqrt_mul_self (k : Nat) : nearSqrt (k * k) = k := by
  have hwide : (k * k) <<< (2 * 64) = k * 2 ^ 64 * (k * 2 ^ 64) := by
    rw [Nat.shiftLeft_eq]
    ring
  simp only [nearSqrt, hwide, floorSqrt_eq, Nat.sqrt_eq, if_true, Rat.mkRat_eq_div,
    Nat.one_shiftLeft]
  push_cast
  field_simp

end Roots

section Lengths
variable {x : Float}

theorem scaled_zero : scaled 0.0 = ⟨0, -1074⟩ := by
  with_unfolding_all rfl

theorem value_over (a : Scaled) {e : Int} (h : e ≤ a.exponent) :
    (a.over e : Rat) * 2 ^ e = a.value := by
  obtain ⟨k, hk⟩ := Int.eq_ofNat_of_zero_le (sub_nonneg.mpr h)
  have he : a.exponent = k + e := by omega
  rw [Scaled.over, hk, Int.toNat_natCast, Nat.shiftLeft_eq, Scaled.value_eq, he,
    zpow_add₀ two_ne_zero, zpow_natCast]
  push_cast
  ring

/-- The root is put back to the scale on which the squares were added. -/
theorem rescale_eq (q : Rat) (e : Int) :
    (if e < 0 then ofRat (q / mkRat (1 <<< (-e).toNat) 1)
      else ofRat (q * mkRat (1 <<< e.toNat) 1)) = ofRat (q * 2 ^ e) := by
  have hcast (k : Nat) : mkRat ((1 <<< k : Nat) : Int) 1 = (2 : Rat) ^ k := by
    rw [Nat.one_shiftLeft, Rat.mkRat_one]
    push_cast
    rfl
  split
  · obtain ⟨k, rfl⟩ : ∃ k : Nat, e = -k := ⟨(-e).toNat, by omega⟩
    rw [neg_neg, Int.toNat_natCast, hcast, zpow_neg, zpow_natCast, div_eq_mul_inv]
  · obtain ⟨k, rfl⟩ := Int.eq_ofNat_of_zero_le (not_lt.mp ‹¬ e < 0›)
    rw [Int.toNat_natCast, hcast, zpow_natCast]

/-- The length of a vector along an axis is the magnitude of its other part. -/
theorem hypotFinite_zero (x : Float) : hypotFinite x 0.0 = ofRat |value x| := by
  have hover := value_over (scaled x) (finest_le_scaled x)
  have hzero : Scaled.over ⟨0, -1074⟩ (-1074) = 0 := by decide
  rw [abs_value, ← Scaled.value_eq, ← hover, hypotFinite, scaled_zero,
    min_eq_right (finest_le_scaled x), hzero, mul_zero, add_zero, nearSqrt_mul_self]
  exact rescale_eq _ _

/-- The absolute value of a real number is exact. -/
theorem abs_ofReal (h : isFinite x = true) :
    ∃ y, (Complex.ofReal x).abs = .ok y ∧ isFinite y = true ∧ value y = |value x| := by
  have hlt : |(|value x|)| < limit := by
    rw [abs_abs]
    exact abs_value_lt h
  obtain ⟨hfinite, hvalue⟩ := (roundedTo_ofRat |value x|).finite hlt
  rw [(representable_abs (representable_value x)).rounded_eq] at hvalue
  refine ⟨_, ?_, hfinite, hvalue⟩
  obtain ⟨hnan, hinf⟩ := isFinite_iff.mp h
  obtain ⟨hnan', hinf'⟩ := isFinite_iff.mp (by with_unfolding_all rfl : isFinite 0.0 = true)
  have hhypot : hypot x 0.0 = ofRat |value x| := by
    simp only [hypot, hnan, hinf, hnan', hinf', Bool.or_self, Bool.false_eq_true, if_false,
      hypotFinite_zero]
  simp only [Complex.abs, Complex.ofReal, hhypot, (isFinite_iff.mp hfinite).2, Bool.and_false,
    Bool.false_eq_true, if_false]

end Lengths

end Reckoner.Double
