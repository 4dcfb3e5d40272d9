import Mathlib
import Reckoner.Builtin.Apply
import Reckoner.Proofs.Numeral
import Reckoner.Proofs.Double.Hypot

namespace Reckoner.Double
variable {r : Rat} {k : Nat}

theorem lt_limit_of_lt (h : |r| < 2 ^ k) (hk : k ≤ 1023) : |r| < limit :=
  h.trans_le ((pow_le_pow_right₀ one_le_two hk).trans two_pow_le_limit)

theorem exponent_le (hfine : r.den * 2 ^ k ≤ 2 ^ 53) : k ≤ 53 := by
  by_contra hgt
  have hpow : 2 ^ 53 < 2 ^ k := Nat.pow_lt_pow_right (by decide) (not_le.mp hgt)
  have := Nat.le_mul_of_pos_left (2 ^ k) r.den_pos
  omega

/-- Below `2 ^ k` a double is off by at most half a unit of the grid there. -/
theorem abs_rounded_sub_le (h : |r| < 2 ^ k) (hk : k ≤ 1023) :
    |rounded r - r| ≤ 1 / 2 * 2 ^ ((k : Int) - 53) := by
  wlog hr : 0 ≤ r
  · have hneg := this (r := -r) (by rwa [abs_neg]) hk (by linarith)
    rwa [rounded_neg, neg_sub_neg, abs_sub_comm] at hneg
  rcases hr.eq_or_lt with rfl | hpos
  · rw [rounded_zero, sub_zero, abs_zero]
    positivity
  obtain ⟨v, hround, herror⟩ := round?_error hpos (by rwa [abs_of_pos hpos] at h) hk
  rw [round?_eq, if_pos (lt_limit_of_lt h hk)] at hround
  rwa [Option.some.inj hround]

/-- On a grid that is fine enough for the denominator, rounding does not pass or reach integers. -/
theorem integer_le_rounded_iff (hlt : |r| < 2 ^ k) (hfine : r.den * 2 ^ k ≤ 2 ^ 53) (n : Int) :
    (n ≤ rounded r ↔ n ≤ r) ∧ (rounded r ≤ n ↔ r ≤ n) := by
  have hk := exponent_le hfine
  by_cases hr : r.den = 1
  · have hcast : (r.num : Rat) = r := Rat.coe_int_num_of_den_eq_one hr
    have hsmall : |r.num| ≤ 2 ^ 53 := by
      have hle : |r| ≤ 2 ^ 53 := hlt.le.trans (pow_le_pow_right₀ one_le_two hk)
      rw [← hcast] at hle
      exact_mod_cast hle
    have hsame := (representable_integer hsmall).rounded_eq
    rw [hcast] at hsame
    rw [hsame]
    exact ⟨Iff.rfl, Iff.rfl⟩
  · have hne : r ≠ n := by
      rintro rfl
      exact hr (Rat.den_intCast n)
    have hfar := Rational.one_le_abs_sub_mul hne
    rw [Rat.den_intCast, Nat.cast_one, mul_one] at hfar
    have hnear : |rounded r - r| * r.den ≤ 1 / 2 := by
      calc |rounded r - r| * r.den ≤ 1 / 2 * 2 ^ ((k : Int) - 53) * r.den := by
            gcongr
            exact abs_rounded_sub_le hlt (by omega)
        _ = 1 / 2 * (r.den * 2 ^ k / 2 ^ 53) := by
            rw [zpow_sub₀ two_ne_zero, zpow_natCast, zpow_ofNat]
            ring
        _ ≤ 1 / 2 * 1 := by
            gcongr
            rw [div_le_one (by positivity)]
            exact_mod_cast hfine
        _ = 1 / 2 := mul_one _
    have hclose : |rounded r - r| < |r - n| := by
      have hden : (0 : Rat) < r.den := by exact_mod_cast r.den_pos
      exact lt_of_mul_lt_mul_right (by linarith) hden.le
    obtain ⟨hbelow, habove⟩ := abs_lt.mp hclose
    rcases hne.lt_or_gt with hlow | hhigh
    · rw [abs_of_neg (by linarith)] at hbelow habove
      exact ⟨by constructor <;> intro <;> linarith, by constructor <;> intro <;> linarith⟩
    · rw [abs_of_pos (by linarith)] at hbelow habove
      exact ⟨by constructor <;> intro <;> linarith, by constructor <;> intro <;> linarith⟩

/-- Such a rounding changes neither the floor nor the ceiling. -/
theorem floor_rounded (hlt : |r| < 2 ^ k) (hfine : r.den * 2 ^ k ≤ 2 ^ 53) :
    ⌊rounded r⌋ = ⌊r⌋ ∧ ⌈rounded r⌉ = ⌈r⌉ := by
  constructor
  · refine eq_of_forall_le_iff fun n => ?_
    rw [Int.le_floor, Int.le_floor]
    exact (integer_le_rounded_iff hlt hfine n).1
  · refine eq_of_forall_ge_iff fun n => ?_
    rw [Int.ceil_le, Int.ceil_le]
    exact (integer_le_rounded_iff hlt hfine n).2

/-- The nearest double to an integer is an integer. -/
theorem exists_rounded_integer {n : Int} (h : |(n : Rat)| < limit) :
    ∃ m : Int, rounded n = m := by
  obtain ⟨-, hvalue⟩ := (roundedTo_ofRat n).finite h
  rcases le_or_gt 0 (scaled (ofRat n)).exponent with hcoarse | hfine
  · obtain ⟨j, hsize⟩ := abs_value_of_coarse hcoarse
    rw [hvalue] at hsize
    rcases abs_choice (rounded n) with hpos | hneg
    · exact ⟨((scaled (ofRat n)).mantissa * 2 ^ j : Nat), by rw [← hpos, hsize, Int.cast_natCast]⟩
    · refine ⟨-((scaled (ofRat n)).mantissa * 2 ^ j : Nat), ?_⟩
      rw [Int.cast_neg, Int.cast_natCast, ← hsize, hneg, neg_neg]
  · -- A double with a fraction is small, and so is what was rounded to it.
    have hsmall : |n| ≤ 2 ^ 53 := by
      by_contra hgt
      have hlarge : |rounded ((2 ^ 53 : Int) : Rat)| ≤ |rounded n| := by
        rw [← rounded_abs, ← rounded_abs]
        apply rounded_mono
        exact_mod_cast (not_le.mp hgt).le
      rw [(representable_integer (by decide)).rounded_eq, ← hvalue] at hlarge
      have := abs_value_lt_of_fine hfine
      norm_num at hlarge
      linarith
    exact ⟨n, (representable_integer hsmall).rounded_eq⟩

end Reckoner.Double

namespace Reckoner.Builtin
open Double Rational

/-- The functions that have an exact value at every rational. -/
inductive HasValue : Builtin → (Rat → Rat) → Prop where
  | abs : HasValue .abs (fun q => |q|)
  | floor : HasValue .floor (fun q => ⌊q⌋)
  | ceil : HasValue .ceil (fun q => ⌈q⌉)

section Apply
variable {b : Builtin} {f : Rat → Rat} {r : Rat}

theorem toComplex_of_lt (h : |r| < limit) :
    toComplex (.rational r) = .ok (.ofReal (ofRat r)) := by
  simp only [toComplex, toDouble, ofRat?, tooLarge_eq_false h, Bool.false_eq_true, if_false]
  rfl

/-- From the limit on there is no double to go by. -/
theorem toComplex_of_le (h : limit ≤ |r|) :
    toComplex (.rational r) = .error .quotientTooLarge := by
  simp only [toComplex, toDouble, ofRat?, (tooLarge_iff r).mpr h, if_true]
  rfl

theorem ofReal_of_isFinite {x : Float} (h : isFinite x = true) :
    ofReal x = .ok (.rational (settle (value x))) := by
  obtain ⟨hnan, hinf⟩ := isFinite_iff.mp h
  simp only [ofReal, ofDouble, hnan, hinf, Bool.false_eq_true, if_false]
  rfl

theorem absolute_of_lt (h : |r| < limit) :
    absolute (.rational r) = .ok (.rational (settle |Double.rounded r|)) := by
  obtain ⟨hfinite, hvalue⟩ := (roundedTo_ofRat r).finite h
  obtain ⟨y, habs, hfinite', hvalue'⟩ := abs_ofReal hfinite
  rw [hvalue] at hvalue'
  simp only [absolute, toComplex_of_lt h, bind, Except.bind, habs, ofReal_of_isFinite hfinite',
    hvalue']

theorem rounded_of_lt (round : Rat → Int) (h : |r| < limit) :
    Builtin.rounded round (.rational r) = .ok (.rational (round (Double.rounded r))) := by
  obtain ⟨hfinite, hvalue⟩ := (roundedTo_ofRat r).finite h
  obtain ⟨hnan, hinf⟩ := isFinite_iff.mp hfinite
  have hreal : ((0.0 : Float) != 0.0) = false := by with_unfolding_all rfl
  simp only [Builtin.rounded, toComplex_of_lt h, bind, Except.bind, Double.Complex.ofReal, hreal,
    hnan, hinf, hvalue, Bool.false_eq_true, if_false]
  rfl

theorem apply_of_le (h : HasValue b f) (mode : AngleMode) (hr : limit ≤ |r|) :
    apply b mode (.rational r) = .error .quotientTooLarge := by
  cases h <;> simp only [apply, absolute, Builtin.rounded, toComplex_of_le hr, bind, Except.bind]

theorem settle_integer (n : Int) : settle n = n :=
  approximate_of_den_le (by simp)

/-- The exact value at the nearest double, with a small denominator. -/
theorem apply_of_lt (h : HasValue b f) (mode : AngleMode) (hr : |r| < limit) :
    apply b mode (.rational r) = .ok (.rational (settle (f (Double.rounded r)))) := by
  cases h with
  | abs => exact absolute_of_lt hr
  | floor =>
    rw [settle_integer]
    exact rounded_of_lt Rat.floor hr
  | ceil =>
    have hceil : ⌈Double.rounded r⌉ = (Double.rounded r).ceil :=
      (Rat.ceil_eq_neg_floor_neg _).symm
    rw [settle_integer, hceil]
    exact rounded_of_lt Rat.ceil hr

def IsExact (b : Builtin) (f : Rat → Rat) (mode : AngleMode) (r : Rat) : Prop :=
  apply b mode (.rational r) = .ok (.rational (f r))

theorem isExact_iff (h : HasValue b f) (mode : AngleMode) (r : Rat) :
    IsExact b f mode r ↔ |r| < limit ∧ settle (f (Double.rounded r)) = f r := by
  rw [IsExact]
  by_cases hr : |r| < limit
  · rw [apply_of_lt h mode hr, Except.ok.injEq, Value.rational.injEq]
    exact (and_iff_right hr).symm
  · rw [apply_of_le h mode (not_lt.mp hr)]
    simp [hr]

theorem lt_limit_of_fine {k : Nat} (hlt : |r| < 2 ^ k) (hfine : r.den * 2 ^ k ≤ 2 ^ 53) :
    |r| < limit :=
  lt_limit_of_lt hlt ((exponent_le hfine).trans (by decide))

theorem isExact_of_rounded (h : HasValue b f) (mode : AngleMode) {k : Nat} (hb : b ≠ .abs)
    (hlt : |r| < 2 ^ k) (hfine : r.den * 2 ^ k ≤ 2 ^ 53) : IsExact b f mode r := by
  obtain ⟨hfloor, hceil⟩ := floor_rounded hlt hfine
  rw [isExact_iff h]
  refine ⟨lt_limit_of_fine hlt hfine, ?_⟩
  cases h with
  | abs => exact absurd rfl hb
  | floor => simp only [hfloor, settle_integer]
  | ceil => simp only [hceil, settle_integer]

theorem den_abs (r : Rat) : |r|.den = r.den := by
  rcases abs_choice r with he | he <;> simp [he]

/-- A denominator up to a million and enough bits for it make all three exact. -/
theorem isExact_of_fine (h : HasValue b f) (mode : AngleMode) {k : Nat} (hlt : |r| < 2 ^ k)
    (hden : r.den ≤ 1000000) (hfine : r.den * 1000000 * 2 ^ k < 2 ^ 53) : IsExact b f mode r := by
  have hcoarse : r.den * 2 ^ k ≤ 2 ^ 53 := by
    rw [mul_right_comm] at hfine
    omega
  by_cases hb : b = .abs
  · have hlimit := lt_limit_of_fine hlt hcoarse
    have hsettle := settle_round? (abs_nonneg r) (den_abs r ▸ hden) hlt (den_abs r ▸ hfine)
    rw [round?_eq, abs_abs, if_pos hlimit, Option.map_some, rounded_abs] at hsettle
    subst hb
    cases h
    exact (isExact_iff .abs mode r).mpr ⟨hlimit, Option.some.inj hsettle⟩
  · exact isExact_of_rounded h mode hb hlt hcoarse

/-- A denominator above a million is lost. -/
theorem not_isExact_of_den (mode : AngleMode) (h : 1000000 < r.den) :
    ¬ IsExact .abs (fun q => |q|) mode r := by
  rw [isExact_iff .abs]
  rintro ⟨-, hsame⟩
  have hden := (approximate_closest (by decide : 0 < 1000000) |Double.rounded r|).1
  rw [← settle, hsame, den_abs] at hden
  omega

theorem abs_rounded_eq_iff (r : Rat) : |Double.rounded r| = |r| ↔ Double.rounded r = r := by
  rcases le_total 0 r with hr | hr
  · rw [abs_of_nonneg hr, abs_of_nonneg (rounded_nonneg hr)]
  · have hround := rounded_mono hr
    rw [rounded_zero] at hround
    rw [abs_of_nonpos hr, abs_of_nonpos hround, neg_inj]

/-- At an integer a function is exact if that integer is a double. -/
theorem isExact_integer_iff (h : HasValue b f) (mode : AngleMode) (hr : r.den = 1) :
    IsExact b f mode r ↔ |r| < limit ∧ Double.rounded r = r := by
  rw [isExact_iff h]
  refine and_congr_right fun hlt => ?_
  obtain ⟨n, rfl⟩ : ∃ n : Int, r = n := ⟨r.num, (Rat.coe_int_num_of_den_eq_one hr).symm⟩
  rw [← abs_rounded_eq_iff]
  obtain ⟨m, hm⟩ := exists_rounded_integer hlt
  have habs : settle |(m : Rat)| = |(m : Rat)| := by
    rw [← Int.cast_abs, settle_integer]
  cases h with
  | abs => simp only [hm, habs]
  | floor =>
    rw [abs_rounded_eq_iff]
    simp only [hm, Int.floor_intCast, settle_integer]
  | ceil =>
    rw [abs_rounded_eq_iff]
    simp only [hm, Int.ceil_intCast, settle_integer]

/-- Absolute values, floors and ceilings are those of the nearest double, with a denominator up to a
million, and there are none from the limit on. So a floor or ceiling is exact if the grid of doubles
is fine enough for the denominator, an absolute value only if the denominator is small, too, and at
an integer all three are exact if and only if it is a double. -/
theorem apply_hasValue (h : HasValue b f) (mode : AngleMode) (r : Rat) :
    (apply b mode (.rational r) =
        if |r| < limit then .ok (.rational (settle (f (Double.rounded r))))
        else .error .quotientTooLarge) ∧
      (IsExact b f mode r ↔ |r| < limit ∧ settle (f (Double.rounded r)) = f r) ∧
      (∀ k : Nat, |r| < 2 ^ k → r.den * 2 ^ k ≤ 2 ^ 53 → b ≠ .abs → IsExact b f mode r) ∧
      (∀ k : Nat, |r| < 2 ^ k → r.den * 1000000 * 2 ^ k < 2 ^ 53 → r.den ≤ 1000000 →
        IsExact b f mode r) ∧
      (b = .abs → 1000000 < r.den → ¬ IsExact b f mode r) ∧
      (r.den = 1 → (IsExact b f mode r ↔ |r| < limit ∧ Double.rounded r = r)) := by
  refine ⟨?_, isExact_iff h mode r, ?_, ?_, ?_, isExact_integer_iff h mode⟩
  · split
    · rename_i hlt
      exact apply_of_lt h mode hlt
    · rename_i hle
      exact apply_of_le h mode (not_lt.mp hle)
  · intro k hlt hfine hb
    exact isExact_of_rounded h mode hb hlt hfine
  · intro k hlt hfine hden
    exact isExact_of_fine h mode hlt hden hfine
  · intro hb hden
    subst hb
    cases h
    exact not_isExact_of_den mode hden

/-- An integer of 54 bits and a fraction. -/
theorem apply_hasValue_bits :
    apply .floor .radians (.rational 9007199254740993) = .ok (.rational 9007199254740992) ∧
      ¬ IsExact .floor (fun q => ⌊q⌋) .radians 9007199254740993 ∧
      IsExact .abs (fun q => |q|) .radians (-3 / 2) := by
  have hlt : |(9007199254740993 : Rat)| < limit := by decide +kernel
  have hfloor : settle (⌊Double.rounded 9007199254740993⌋ : Int) = 9007199254740992 := by
    decide +kernel
  obtain ⟨hvalue, hexact, -⟩ := apply_hasValue .floor .radians 9007199254740993
  obtain ⟨-, -, -, hfine, -⟩ := apply_hasValue .abs .radians (-3 / 2)
  refine ⟨?_, ?_, hfine 1 (by decide +kernel) (by decide +kernel) (by decide +kernel)⟩
  · rw [hvalue, if_pos hlt, hfloor]
  · rw [hexact, hfloor]
    rintro ⟨-, hsame⟩
    exact absurd hsame (by decide +kernel)

end Apply

end Reckoner.Builtin
