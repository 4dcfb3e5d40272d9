import Mathlib
import Reckoner.Proofs.Approximate
import Reckoner.Proofs.Double
import Reckoner.Proofs.Equation.Reduction

namespace Reckoner.Equation
open Outcome Double

/-- Raised to one half, the double comes to a number that is off by at most the last of 53 bits. -/
def RootAccurate (x : Float) : Prop :=
  ∃ y v, power x 0.5 = .ok y ∧ Rational.ofDouble y = .ok v ∧
    |(v : ℝ) - √(value x)| ≤ √(value x) / 2 ^ 52

/-- A square root that is found again after it was worked out in doubles. -/
structure Attainable (w : Rat) : Prop where
  den_le : w.den ≤ 1000000
  num_le : w.num ≤ 1000000000
  accurate : RootAccurate (ofRat (w * w))

/-- A square root that has too large a denominator, or is an integer with more than 53 bits, zeros
at its end apart. -/
def Lost (w : Rat) : Prop :=
  1000000 < w.den ∨ w.den = 1 ∧ ∀ m k : Nat, m < 2 ^ 53 → w.num ≠ m * 2 ^ k

section Root
variable {w : Rat}

/-- The error of a square is halved in its root. -/
theorem abs_sqrt_sub_le {w X : ℝ} (hw : 0 < w) (hX : |X - w * w| ≤ w * w / 2 ^ 53) :
    |√X - w| ≤ w / 2 ^ 53 := by
  have hXpos : 0 ≤ X := by
    have := (abs_le.mp hX).1
    have : w * w / 2 ^ 53 ≤ w * w := div_le_self (by positivity) (by norm_num)
    linarith
  have hsum : 0 < √X + w := by positivity
  have hprod : (√X - w) * (√X + w) = X - w * w := by
    linear_combination Real.mul_self_sqrt hXpos
  have habs : |√X - w| * (√X + w) = |X - w * w| := by
    rw [← hprod, abs_mul, abs_of_pos hsum]
  have hroot : 0 ≤ √X := Real.sqrt_nonneg X
  have hle : |√X - w| * w ≤ w / 2 ^ 53 * w := by
    calc |√X - w| * w ≤ |√X - w| * (√X + w) := by gcongr; linarith
      _ = |X - w * w| := habs
      _ ≤ w * w / 2 ^ 53 := hX
      _ = w / 2 ^ 53 * w := by ring
  exact le_of_mul_le_mul_right hle hw

/-- Rounding before and after the square root leaves a small error. -/
theorem abs_sub_le_of_rounded {w X v : ℝ} (hw : 0 < w) (hX : |X - w * w| ≤ w * w / 2 ^ 53)
    (hv : |v - √X| ≤ √X / 2 ^ 52) : |v - w| ≤ w / 2 ^ 51 := by
  have hroot := abs_sqrt_sub_le hw hX
  have hupper := (abs_le.mp hroot).2
  calc |v - w| ≤ |v - √X| + |√X - w| := abs_sub_le _ _ _
    _ ≤ √X / 2 ^ 52 + w / 2 ^ 53 := add_le_add hv hroot
    _ ≤ (w + w / 2 ^ 53) / 2 ^ 52 + w / 2 ^ 53 := by gcongr; linarith
    _ ≤ w / 2 ^ 51 := by
      norm_num
      linarith

/-- The bounds that keep the error of two roundings below one part of the denominator. -/
theorem Attainable.bounds (hw : 0 < w) (h : Attainable w) :
    1 / 1000000 ≤ w ∧ w ≤ 1000000000 ∧ w * w.den ≤ 1000000000 := by
  have hprod : w * w.den = w.num := Rat.mul_den_eq_num w
  have hnum : (1 : Rat) ≤ w.num := by exact_mod_cast Rat.num_pos.mpr hw
  have hnum' : (w.num : Rat) ≤ 1000000000 := by exact_mod_cast h.num_le
  have hden : (1 : Rat) ≤ w.den := by exact_mod_cast w.den_pos
  have hden' : (w.den : Rat) ≤ 1000000 := by exact_mod_cast h.den_le
  have hlow : w * w.den ≤ w * 1000000 := by gcongr
  have hhigh : w ≤ w * w.den := le_mul_of_one_le_right hw.le hden
  refine ⟨?_, ?_, ?_⟩ <;> linarith

/-- What is small enough comes through the square root unharmed. -/
theorem root_square (hw : 0 < w) (h : Attainable w) : root (w * w) = .ok w := by
  obtain ⟨hlow, hhigh, hnum⟩ := h.bounds hw
  have hmin : (2 : Rat) ^ (-1022 : Int) ≤ w * w := by
    calc (2 : Rat) ^ (-1022 : Int) ≤ 2 ^ (-40 : Int) :=
          zpow_le_zpow_right₀ one_le_two (by norm_num)
      _ ≤ 1 / 1000000 * (1 / 1000000) := by norm_num
      _ ≤ w * w := by gcongr
  have hmax : w * w < 2 ^ 1023 := by
    calc w * w ≤ 1000000000 * 1000000000 := by gcongr
      _ < 2 ^ 60 := by norm_num
      _ ≤ 2 ^ 1023 := pow_le_pow_right₀ one_le_two (by norm_num)
  obtain ⟨hdouble, herror⟩ := Rational.toDouble_error hmin hmax
  obtain ⟨y, v, hy, hv, haccurate⟩ := h.accurate
  have hclose : |v - w| ≤ w / 2 ^ 51 := by
    have hw' : (0 : ℝ) < w := by exact_mod_cast hw
    exact_mod_cast abs_sub_le_of_rounded hw' (by exact_mod_cast herror) haccurate
  have hsettle : Rational.settle v = w := by
    apply Rational.approximate_eq h.den_le
    calc |v - w| * (2 * (1000000 : Nat) * w.den)
        ≤ w / 2 ^ 51 * (2 * (1000000 : Nat) * w.den) := by gcongr
      _ = w * w.den * (1000000 / 2 ^ 50) := by
          push_cast
          ring
      _ ≤ 1000000000 * (1000000 / 2 ^ 50) := by gcongr
      _ < 1 := by norm_num
  simp only [root, hdouble, ok_bind, hy, hv, hsettle, pure_eq_ok]

/-- What settles moves by at most one. -/
theorem abs_settle_sub_le (v : Rat) : |Rational.settle v - v| ≤ 1 := by
  have hclosest : |Rational.settle v - v| ≤ |⌊v⌋ - v| :=
    (Rational.approximate_closest (by decide) v).2 ⌊v⌋ (by simp)
  apply hclosest.trans
  rw [abs_le]
  constructor <;> linarith [Int.floor_le v, Int.lt_floor_add_one v]

/-- An integer that is no double is not what a double settles to. -/
theorem settle_value_ne (hw : 0 < w) (hden : w.den = 1)
    (hbits : ∀ m k : Nat, m < 2 ^ 53 → w.num ≠ m * 2 ^ k) (y : Float) :
    Rational.settle (value y) ≠ w := by
  have hcast : (w.num : Rat) = w := Rat.coe_int_num_of_den_eq_one hden
  intro he
  rcases le_or_gt 0 (scaled y).exponent with hcoarse | hfine
  · -- The double is settled as it is, and has no more bits than doubles have.
    obtain ⟨k, hsize⟩ := abs_value_of_coarse hcoarse
    have hinteger : (value y).den = 1 := by
      rcases eq_or_eq_neg_of_abs_eq hsize with h | h
      · rw [h, Rat.den_natCast]
      · rw [h, Rat.den_neg_eq_den, Rat.den_natCast]
    rw [Rational.settle, Rational.approximate_of_den_le (by omega)] at he
    rw [he, abs_of_pos hw, ← hcast] at hsize
    exact hbits (scaled y).mantissa k (mantissa_scaled_lt y) (by exact_mod_cast hsize)
  · -- The double is too small, and so is what it settles to.
    have hsize := abs_value_lt_of_fine hfine
    have hnear := abs_settle_sub_le (value y)
    have hlarge : (2 : Rat) ^ 53 ≤ w := by
      have hnum : 0 < w.num := Rat.num_pos.mpr hw
      have hle : 2 ^ 53 ≤ w.num := by
        by_contra hlt
        exact hbits w.num.toNat 0 (by omega) (by omega)
      rw [← hcast]
      exact_mod_cast hle
    rw [he] at hnear
    linarith [le_abs_self (w - value y), le_abs_self (value y)]

/-- What is lost is not found again, whatever the doubles come to. -/
theorem ne_of_root {q s : Rat} (hw : 0 < w) (hlost : Lost w) (h : root q = .ok s) : s ≠ w := by
  obtain ⟨x, -, h⟩ := bind_eq_ok.mp h
  obtain ⟨y, -, h⟩ := bind_eq_ok.mp h
  obtain ⟨v, hv, h⟩ := bind_eq_ok.mp h
  cases h
  rcases hlost with hden | ⟨hden, hbits⟩
  · rintro rfl
    exact absurd (Rational.approximate_closest (by decide) v).1 hden.not_ge
  · have hvalue : v = value y := by
      unfold Rational.ofDouble at hv
      split at hv
      · cases hv
      · split at hv
        · cases hv
        · cases hv
          rfl
    rw [hvalue]
    exact settle_value_ne hw hden hbits y

theorem isLong_of_le {n : Nat} (h : n ≤ 2 ^ 60) : Rational.isLong n = false := by
  rw [Rational.isLong, Bool.and_eq_false_iff, decide_eq_false_iff_not]
  refine .inl fun hlog => ?_
  have hn : n ≠ 0 := by
    rintro rfl
    simp at hlog
  have hlt : n.log2 < 61 := (Nat.log2_lt hn).mpr (h.trans_lt (by norm_num))
  omega

/-- The square of an attainable root is short enough to be written. -/
theorem tooLong_square (hw : 0 < w) (h : Attainable w) : Rational.tooLong (w * w) = false := by
  have hnum : w.num.natAbs ≤ 1000000000 := by
    have := h.num_le
    have := Rat.num_pos.mpr hw
    omega
  rw [Rational.tooLong, Rat.mul_self_num, Rat.mul_self_den, Int.natAbs_mul, Bool.or_eq_false_iff]
  constructor
  · exact isLong_of_le ((Nat.mul_le_mul hnum hnum).trans (by norm_num))
  · exact isLong_of_le ((Nat.mul_le_mul h.den_le h.den_le).trans (by norm_num))

end Root

section Quadratic
variable {a b c w : Rat}

theorem quadratic_real (ha : a ≠ 0) (hw : 0 < w) (hD : b * b - 4 * a * c = w * w)
    (h : Attainable w) (h₁ : Rational.tooLong ((-b + w) / (2 * a)) = false)
    (h₂ : Rational.tooLong ((-b - w) / (2 * a)) = false) :
    quadratic a b c =
      .ok (.real (b * b - 4 * a * c) ((-b + w) / (2 * a)) ((-b - w) / (2 * a))) := by
  have hpos : 0 < b * b - 4 * a * c := hD ▸ mul_pos hw hw
  refine (quadratic_of_pos hpos).mpr ⟨?_, ha, w, ?_, h₁, h₂, rfl⟩
  · rw [hD, tooLong_square hw h]
  · rw [hD, root_square hw h]

theorem quadratic_complex (ha : a ≠ 0) (hw : 0 < w) (hD : b * b - 4 * a * c = -(w * w))
    (h : Attainable w) (h₁ : Rational.tooLong (-b / (2 * a)) = false)
    (h₂ : Rational.tooLong (w / (2 * a)) = false) :
    quadratic a b c = .ok (.complex (b * b - 4 * a * c) ⟨-b / (2 * a), w / (2 * a)⟩
      ⟨-b / (2 * a), -(w / (2 * a))⟩) := by
  have hneg : b * b - 4 * a * c < 0 := hD ▸ neg_neg_of_pos (mul_pos hw hw)
  refine (quadratic_of_neg hneg).mpr ⟨?_, ha, w, ?_, h₁, h₂, rfl⟩
  · rw [hD, Rational.tooLong_neg, tooLong_square hw h]
  · rw [hD, neg_neg, root_square hw h]

/-- A root that is lost spoils both real solutions. -/
theorem quadratic_real_ne {D x₁ x₂ : Rat} (hw : 0 < w) (hlost : Lost w)
    (h : quadratic a b c = .ok (.real D x₁ x₂)) :
    x₁ ≠ (-b + w) / (2 * a) ∧ x₂ ≠ (-b - w) / (2 * a) := by
  rcases lt_trichotomy 0 (b * b - 4 * a * c) with hpos | hzero | hneg
  · obtain ⟨-, ha, s, hs, -, -, he⟩ := (quadratic_of_pos hpos).mp h
    have hne := ne_of_root hw hlost hs
    cases he
    have ha' : 2 * a ≠ 0 := mul_ne_zero two_ne_zero ha
    simp [div_left_inj' ha', hne]
  · obtain ⟨-, -, he⟩ := (quadratic_of_eq_zero hzero.symm).mp h
    cases he
  · obtain ⟨-, -, s, -, -, -, he⟩ := (quadratic_of_neg hneg).mp h
    cases he

theorem quadratic_complex_ne {D : Rat} {z₁ z₂ : GaussRat} (hw : 0 < w) (hlost : Lost w)
    (h : quadratic a b c = .ok (.complex D z₁ z₂)) :
    z₁.im ≠ w / (2 * a) ∧ z₂.im ≠ -(w / (2 * a)) := by
  rcases lt_trichotomy 0 (b * b - 4 * a * c) with hpos | hzero | hneg
  · obtain ⟨-, -, s, -, -, -, he⟩ := (quadratic_of_pos hpos).mp h
    cases he
  · obtain ⟨-, -, he⟩ := (quadratic_of_eq_zero hzero.symm).mp h
    cases he
  · obtain ⟨-, ha, s, hs, -, -, he⟩ := (quadratic_of_neg hneg).mp h
    have hne := ne_of_root hw hlost hs
    cases he
    have ha' : 2 * a ≠ 0 := mul_ne_zero two_ne_zero ha
    simp [div_left_inj' ha', hne]

end Quadratic

/-- What is said of a quadratic equation is what its coefficients give. -/
theorem solve_eq_quadratic {s : Scope} {left right : Expr} {x : String} {d : Polynomial} {r : Roots}
    (h : Reduces s left right x d) (hdegree : d.degree = 2) (hlong : d.tooLong = false) :
    solve s left right = .ok (.reduced d x 2 r) ↔
      quadratic (d.coeff 2) (d.coeff 1) (d.coeff 0) = .ok r := by
  have hroots : rootsOf d 2 = quadratic (d.coeff 2) (d.coeff 1) (d.coeff 0) := by simp [rootsOf]
  have hshort : isUnwritable d = false := by
    rw [isUnwritable, hlong, hdegree, Bool.false_or]
    exact isLong_of_le_two le_rfl
  rw [solve_eq_conclude h, conclude_eq_ok, hdegree, hroots]
  simp [hshort]

/-- Where the discriminant is the square of a rational, or its negative is, the solutions are exact
if the root is attainable and they can be written, and they are not if the root is lost. -/
theorem solve_square (s : Scope) (left right : Expr) (x : String) (d : Polynomial) (w : Rat)
    (h : Reduces s left right x d) (hdegree : d.degree = 2) (hlong : d.tooLong = false)
    (ha : d.coeff 2 ≠ 0) (hw : 0 < w) :
    let a := d.coeff 2
    let b := d.coeff 1
    let D := b * b - 4 * a * d.coeff 0
    (D = w * w →
      (Attainable w → Rational.tooLong ((-b + w) / (2 * a)) = false →
        Rational.tooLong ((-b - w) / (2 * a)) = false →
        solve s left right =
          .ok (.reduced d x 2 (.real D ((-b + w) / (2 * a)) ((-b - w) / (2 * a))))) ∧
      (Lost w → ∀ x₁ x₂, solve s left right = .ok (.reduced d x 2 (.real D x₁ x₂)) →
        x₁ ≠ (-b + w) / (2 * a) ∧ x₂ ≠ (-b - w) / (2 * a))) ∧
    (D = -(w * w) →
      (Attainable w → Rational.tooLong (-b / (2 * a)) = false →
        Rational.tooLong (w / (2 * a)) = false →
        solve s left right = .ok (.reduced d x 2
          (.complex D ⟨-b / (2 * a), w / (2 * a)⟩ ⟨-b / (2 * a), -(w / (2 * a))⟩))) ∧
      (Lost w → ∀ z₁ z₂, solve s left right = .ok (.reduced d x 2 (.complex D z₁ z₂)) →
        z₁.im ≠ w / (2 * a) ∧ z₂.im ≠ -(w / (2 * a)))) := by
  intro a b D
  simp only [solve_eq_quadratic h hdegree hlong]
  refine ⟨fun hD => ⟨?_, fun hlost x₁ x₂ => quadratic_real_ne hw hlost⟩,
    fun hD => ⟨?_, fun hlost z₁ z₂ => quadratic_complex_ne hw hlost⟩⟩
  · exact quadratic_real ha hw hD
  · exact quadratic_complex ha hw hD

/-- One is raised to any power without rounding. -/
theorem attainable_one : Attainable 1 := by
  refine ⟨by decide, by decide, 1.0, 1, by with_unfolding_all rfl, by with_unfolding_all rfl, ?_⟩
  have hvalue : value (ofRat (1 * 1)) = 1 := by decide +kernel
  rw [hvalue]
  simp

def fine : Scope :=
  .bind .empty "k" (.rational (1 / 1000003))

/-- `x^2 - 5 * x + 6 = 0` has the solutions 3 and 2, and the solutions that are given for
`x^2 - k * k = 0` are not `k` and `-k`. -/
theorem solve_square_six :
    let left := Expr.binary .add (.binary .sub (.binary .pow (.var "x") (.number "2"))
      (.binary .mul (.number "5") (.var "x"))) (.number "6")
    let left' := Expr.binary .sub (.binary .pow (.var "x") (.number "2"))
      (.binary .mul (.var "k") (.var "k"))
    let d := Polynomial.mk [(2, 1), (1, -5), (0, 6)]
    let d' := Polynomial.mk [(2, 1), (0, -1 / 1000006000009)]
    let D' : Rat := 4 / 1000006000009
    (Reduces .empty left (.number "0") "x" d ∧ d.degree = 2 ∧ d.tooLong = false ∧
      d.coeff 2 ≠ 0 ∧ Attainable 1) ∧
    solve .empty left (.number "0") = .ok (.reduced d "x" 2 (.real 1 3 2)) ∧
    (Reduces fine left' (.number "0") "x" d' ∧ d'.degree = 2 ∧ d'.tooLong = false ∧
      d'.coeff 2 ≠ 0 ∧ Lost (2 / 1000003)) ∧
    ∀ x₁ x₂, solve fine left' (.number "0") = .ok (.reduced d' "x" 2 (.real D' x₁ x₂)) →
      x₁ ≠ 1 / 1000003 ∧ x₂ ≠ -1 / 1000003 := by
  intro left left' d d' D'
  have hd : Reduces .empty left (.number "0") "x" d := by
    refine ⟨left, .number "0", d, ⟨[(0, 0)]⟩, ?_, ?_, ?_, ?_, ?_, ?_⟩
    all_goals with_unfolding_all rfl
  have hd' : Reduces fine left' (.number "0") "x" d' := by
    refine ⟨left', .number "0", d', ⟨[(0, 0)]⟩, ?_, ?_, ?_, ?_, ?_, ?_⟩
    all_goals with_unfolding_all rfl
  have hlong : d.tooLong = false := by decide +kernel
  have hlong' : d'.tooLong = false := by decide +kernel
  have hlost : Lost (2 / 1000003) := .inl (by decide +kernel)
  have hcoeff : d.coeff 2 = 1 ∧ d.coeff 1 = -5 ∧ d.coeff 0 = 6 := ⟨rfl, rfl, rfl⟩
  have hcoeff' : d'.coeff 2 = 1 ∧ d'.coeff 1 = 0 ∧ d'.coeff 0 = -1 / 1000006000009 :=
    ⟨rfl, rfl, rfl⟩
  have hsolve := ((solve_square .empty left (.number "0") "x" d 1 hd rfl hlong (by decide +kernel)
    (by decide)).1 (by decide +kernel)).1 attainable_one (by decide +kernel) (by decide +kernel)
  have hne := ((solve_square fine left' (.number "0") "x" d' (2 / 1000003) hd' rfl hlong'
    (by decide +kernel) (by decide +kernel)).1 (by decide +kernel)).2 hlost
  refine ⟨⟨hd, rfl, hlong, by decide +kernel, attainable_one⟩, ?_,
    ⟨hd', rfl, hlong', by decide +kernel, hlost⟩, fun x₁ x₂ h => ?_⟩
  · rw [hcoeff.1, hcoeff.2.1, hcoeff.2.2] at hsolve
    norm_num at hsolve
    exact hsolve
  · specialize hne x₁ x₂
    rw [hcoeff'.1, hcoeff'.2.1, hcoeff'.2.2] at hne
    norm_num at hne ⊢
    exact hne h

end Reckoner.Equation
