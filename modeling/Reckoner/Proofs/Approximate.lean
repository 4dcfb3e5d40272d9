import Mathlib
import Reckoner.Rational.Approximate

namespace Reckoner.Rational

/-- A stage of the continued fraction of `y`: after the convergents `p₀ / q₀` and `p₁ / q₁` the
quotient `n / d` is left. -/
structure Expands (bound : Nat) (y : Rat) (n : Int) (d : Nat) (p₀ : Int) (q₀ : Nat) (p₁ : Int)
    (q₁ : Nat) : Prop where
  num_eq : y.num = n * p₁ + d * p₀
  den_eq : (y.den : Int) = n * q₁ + d * q₀
  det : |p₁ * q₀ - p₀ * q₁| = 1
  le₀ : q₀ ≤ bound
  le₁ : q₁ ≤ bound
  nonneg : 0 ≤ n ∨ q₁ = 0

section Expansion
variable {bound : Nat} {y : Rat} {n : Int} {d : Nat} {p₀ p₁ : Int} {q₀ q₁ : Nat}

/-- Before the first partial quotient all of `y` is left. -/
theorem Expands.init (hb : 0 < bound) (y : Rat) : Expands bound y y.num y.den 0 1 1 0 where
  num_eq := by simp
  den_eq := by simp
  det := by simp
  le₀ := hb
  le₁ := Nat.zero_le bound
  nonneg := .inr rfl

/-- One more partial quotient. -/
theorem Expands.step (h : Expands bound y n d p₀ q₀ p₁ q₁) (hd : d ≠ 0)
    (hq : ¬ (bound : Int) < q₀ + n / d * q₁) :
    Expands bound y d (n % d).toNat p₁ q₁ (p₀ + n / d * p₁) ((q₀ : Int) + n / d * q₁).toNat := by
  have hsplit : (d : Int) * (n / d) + n % d = n := Int.mul_ediv_add_emod n d
  have hrest : ((n % d).toNat : Int) = n % d := Int.toNat_of_nonneg (Int.emod_nonneg n (by omega))
  have hnonneg : 0 ≤ (q₀ : Int) + n / d * q₁ := by
    rcases h.nonneg with hn | hz
    · have := Int.ediv_nonneg hn (Int.natCast_nonneg d)
      positivity
    · simp [hz]
  have hnext : (((q₀ : Int) + n / d * q₁).toNat : Int) = q₀ + n / d * q₁ :=
    Int.toNat_of_nonneg hnonneg
  constructor
  · rw [h.num_eq, hrest]
    linear_combination -p₁ * hsplit
  · rw [h.den_eq, hrest, hnext]
    linear_combination -(q₁ : Int) * hsplit
  · rw [hnext, ← h.det, abs_sub_comm]
    congr 1
    ring
  · exact h.le₁
  · omega
  · exact .inl (Int.natCast_nonneg d)

/-- The convergents end where the next one would have too large a denominator, or with `y`. -/
theorem convergents_spec (h : Expands bound y n d p₀ q₀ p₁ q₁) {P₀ P₁ : Int} {Q₀ Q₁ : Nat}
    (hc : convergents bound n d p₀ q₀ p₁ q₁ = (P₀, Q₀, P₁, Q₁)) :
    ∃ n' d', Expands bound y n' d' P₀ Q₀ P₁ Q₁ ∧ (d' = 0 ∨ (bound : Int) < Q₀ + n' / d' * Q₁) := by
  fun_induction convergents with
  | case1 n p₀ q₀ p₁ q₁ =>
    cases hc
    exact ⟨n, 0, h, .inl rfl⟩
  | case2 n d p₀ q₀ p₁ q₁ hd a q₂ hq =>
    cases hc
    exact ⟨n, d, h, .inr hq⟩
  | case3 n d p₀ q₀ p₁ q₁ hd a q₂ hq ih => exact ih (h.step hd hq) hc

end Expansion

section Neighbours
variable {p P : Int} {q Q : Nat} {y r : Rat}

/-- Between neighbours there are only fractions with larger denominators. -/
theorem le_or_le_of_den_lt (hq : 0 < q) (hQ : 0 < Q) (hdet : p * Q - P * q = 1)
    (hr : r.den < q + Q) : r ≤ (P : Rat) / Q ∨ (p : Rat) / q ≤ r := by
  have hden : 0 < r.den := r.den_pos
  by_contra hnot
  obtain ⟨hlow, hhigh⟩ := not_or.mp hnot
  rw [← Rat.num_div_den r, not_le, div_lt_div_iff₀ (by positivity) (by positivity)] at hlow hhigh
  have hlow' : P * r.den + 1 ≤ r.num * Q := by exact_mod_cast hlow
  have hhigh' : r.num * q + 1 ≤ p * r.den := by exact_mod_cast hhigh
  have hweights : (r.den : Int) = Q * (p * r.den - r.num * q) + q * (r.num * Q - P * r.den) := by
    linear_combination -(r.den : Int) * hdet
  have hden' : (r.den : Int) < q + Q := by exact_mod_cast hr
  nlinarith

/-- Of two neighbours that enclose `y` one is closest to it. -/
theorem closest_of_det {α β : Int} (hα : 0 ≤ α) (hβ : 0 ≤ β) (hq : 0 < q) (hQ : 0 < Q)
    (hdet : p * Q - P * q = 1) (hnum : y.num = α * p + β * P) (hden : (y.den : Int) = α * q + β * Q)
    (hr : r.den < q + Q) : min |(p : Rat) / q - y| |(P : Rat) / Q - y| ≤ |r - y| := by
  have hlow : (P : Rat) / Q ≤ y := by
    rw [← Rat.num_div_den y, div_le_div_iff₀ (by positivity) (by positivity)]
    have hle : P * y.den ≤ y.num * Q := by
      rw [hnum, hden]
      nlinarith
    exact_mod_cast hle
  have hhigh : y ≤ (p : Rat) / q := by
    rw [← Rat.num_div_den y, div_le_div_iff₀ (by positivity) (by positivity)]
    have hle : y.num * q ≤ p * y.den := by
      rw [hnum, hden]
      nlinarith
    exact_mod_cast hle
  rcases le_or_le_of_den_lt hq hQ hdet hr with hle | hle
  · refine min_le_of_right_le ?_
    rw [abs_of_nonpos (sub_nonpos.mpr hlow), abs_of_nonpos (by linarith)]
    linarith
  · refine min_le_of_left_le ?_
    rw [abs_of_nonneg (sub_nonneg.mpr hhigh), abs_of_nonneg (by linarith)]
    linarith

/-- Neighbouring fractions `p / q` and `P / Q` on either side of `y`, so close that what lies
between them has too large a denominator. -/
structure Enclosed (bound : Nat) (y : Rat) (p : Int) (q : Nat) (P : Int) (Q : Nat) : Prop where
  den_pos : 0 < q ∧ 0 < Q
  den_le : q ≤ bound ∧ Q ≤ bound
  bound_lt : bound < q + Q
  det : |p * Q - P * q| = 1
  weights : ∃ α β : Int, 0 ≤ α ∧ 0 ≤ β ∧ y.num = α * p + β * P ∧ (y.den : Int) = α * q + β * Q

/-- No fraction with a small enough denominator lies between the two neighbours, so one of them is
closest. -/
theorem Enclosed.closest {bound : Nat} (h : Enclosed bound y p q P Q) (hr : r.den ≤ bound) :
    min |mkRat p q - y| |mkRat P Q - y| ≤ |r - y| := by
  rw [Rat.mkRat_eq_div, Rat.mkRat_eq_div]
  obtain ⟨hq, hQ⟩ := h.den_pos
  obtain ⟨α, β, hα, hβ, hnum, hden⟩ := h.weights
  have hlt : r.den < q + Q := hr.trans_lt h.bound_lt
  rcases (abs_eq (by decide)).mp h.det with hdet | hdet
  · exact closest_of_det hα hβ hq hQ hdet hnum hden hlt
  · rw [min_comm]
    apply closest_of_det hβ hα hQ hq
    · linarith
    · linarith
    · linarith
    · omega

end Neighbours

section Approximate
variable {bound : Nat} {y : Rat} {n : Int} {d : Nat} {p₀ p₁ : Int} {q₀ q₁ : Nat}

/-- The last convergent and the last fraction on the way to the next one. -/
theorem Expands.enclosed (h : Expands bound y n d p₀ q₀ p₁ q₁) (hd : d ≠ 0)
    (hover : (bound : Int) < q₀ + n / d * q₁) :
    Enclosed bound y p₁ q₁ (p₀ + ((bound - q₀) / q₁ : Nat) * p₁)
      (q₀ + (bound - q₀) / q₁ * q₁) := by
  have hle₀ := h.le₀
  have hle₁ := h.le₁
  have hpos : 0 < q₁ := by
    by_contra hz
    simp only [not_lt, nonpos_iff_eq_zero] at hz
    simp only [hz, Int.natCast_zero, mul_zero, add_zero] at hover
    omega
  set k := (bound - q₀) / q₁ with hk
  have hkle : k * q₁ ≤ bound - q₀ := Nat.div_mul_le_self _ _
  have hklt : bound - q₀ < (k + 1) * q₁ := by
    rw [mul_comm]
    exact Nat.lt_mul_div_succ _ hpos
  have hfloor : (k : Int) ≤ n / d := by
    by_contra hlt
    have : n / d * q₁ ≤ (k : Int) * q₁ := by gcongr; omega
    have : ((k * q₁ : Nat) : Int) ≤ bound - q₀ := by omega
    push_cast at this
    omega
  have hweight : (k : Int) * d ≤ n := (Int.le_ediv_iff_mul_le (by omega)).mp hfloor
  constructor
  · constructor
    · exact hpos
    · have := Nat.add_one_mul k q₁
      omega
  · constructor <;> omega
  · have := Nat.add_one_mul k q₁
    omega
  · rw [← h.det]
    congr 1
    push_cast
    ring
  · refine ⟨n - k * d, d, by omega, by omega, ?_, ?_⟩
    · rw [h.num_eq]
      ring
    · rw [h.den_eq]
      push_cast
      ring

theorem abs_eq_abs (r : Rat) : r.abs = |r| := by
  rcases le_total 0 r with h | h
  · rw [Rat.abs_of_nonneg h, abs_of_nonneg h]
  · rw [Rat.abs_of_nonpos h, abs_of_nonpos h]

theorem den_mkRat_le (m : Int) {t : Nat} (ht : 0 < t) : (mkRat m t).den ≤ t := by
  rw [Rat.den_mkRat, if_neg ht.ne']
  exact Nat.div_le_self _ _

/-- A denominator that is too large leaves something of the fraction after the last convergent. -/
theorem Expands.rest_ne_zero (h : Expands bound y n d p₀ q₀ p₁ q₁) (hy : bound < y.den) :
    d ≠ 0 := by
  rintro rfl
  have hnum : n ∣ y.num := ⟨p₁, by simpa using h.num_eq⟩
  have hden : n ∣ (y.den : Int) := ⟨q₁, by simpa using h.den_eq⟩
  have hunit : n.natAbs = 1 :=
    Nat.eq_one_of_dvd_coprimes y.reduced (Int.natAbs_dvd_natAbs.mpr hnum)
      (Int.natAbs_dvd.mpr hden |> Int.natCast_dvd_natCast.mp)
  have hle : (y.den : Int) ≤ q₁ := by
    have hq := h.den_eq
    rcases Int.natAbs_eq_iff.mp hunit with rfl | rfl
    · simp at hq
      omega
    · simp at hq
  have := h.le₁
  omega

theorem approximate_of_den_le (hy : y.den ≤ bound) : approximate bound y = y :=
  if_pos hy

/-- Of the neighbours that enclose a number with a large denominator the closer one is taken. -/
theorem approximate_of_lt_den (hb : 0 < bound) (hy : bound < y.den) :
    ∃ p q P Q, Enclosed bound y p q P Q ∧
      approximate bound y =
        if |mkRat p q - y| ≤ |mkRat P Q - y| then mkRat p q else mkRat P Q := by
  rcases hc : convergents bound y.num y.den 0 1 1 0 with ⟨p₀, q₀, p₁, q₁⟩
  obtain ⟨n, d, h, hend⟩ := convergents_spec (.init hb y) hc
  have hd := h.rest_ne_zero hy
  refine ⟨_, _, _, _, h.enclosed hd (hend.resolve_left hd), ?_⟩
  rw [approximate, if_neg hy.not_ge, hc]
  simp only [abs_eq_abs]

/-- The approximation has a small enough denominator, and no other such rational is closer. -/
theorem approximate_closest (hb : 0 < bound) (y : Rat) :
    (approximate bound y).den ≤ bound ∧
      ∀ r : Rat, r.den ≤ bound → |approximate bound y - y| ≤ |r - y| := by
  by_cases hy : y.den ≤ bound
  · rw [approximate_of_den_le hy]
    exact ⟨hy, fun r _ => by simp⟩
  obtain ⟨p, q, P, Q, h, he⟩ := approximate_of_lt_den hb (not_le.mp hy)
  rw [he]
  split
  · rename_i hle
    refine ⟨(den_mkRat_le p h.den_pos.1).trans h.den_le.1, fun r hr => ?_⟩
    exact (le_min le_rfl hle).trans (h.closest hr)
  · rename_i hlt
    refine ⟨(den_mkRat_le P h.den_pos.2).trans h.den_le.2, fun r hr => ?_⟩
    exact (le_min (not_le.mp hlt).le le_rfl).trans (h.closest hr)

/-- Different fractions are at least one part of both denominators apart. -/
theorem one_le_abs_sub_mul {q r : Rat} (h : q ≠ r) : 1 ≤ |q - r| * (q.den * r.den) := by
  have hne : q.num * r.den - r.num * q.den ≠ 0 := by
    intro he
    exact h (Rat.eq_iff_mul_eq_mul.mpr (sub_eq_zero.mp he))
  have hscaled : (q - r) * (q.den * r.den) = ((q.num * r.den - r.num * q.den : Int) : Rat) := by
    push_cast
    rw [sub_mul, ← mul_assoc, Rat.mul_den_eq_num, mul_comm (q.den : Rat), ← mul_assoc,
      Rat.mul_den_eq_num]
  have hden : (0 : Rat) ≤ q.den * r.den := by positivity
  calc (1 : Rat) ≤ |((q.num * r.den - r.num * q.den : Int) : Rat)| := by
        exact_mod_cast Int.one_le_abs hne
    _ = |q - r| * (q.den * r.den) := by rw [← hscaled, abs_mul, abs_of_nonneg hden]

/-- A rational with a small enough denominator is found again from what is close to it. -/
theorem approximate_eq {q : Rat} (hq : q.den ≤ bound) (hy : |y - q| * (2 * bound * q.den) < 1) :
    approximate bound y = q := by
  have hb : 0 < bound := q.den_pos.trans_le hq
  obtain ⟨hden, hclosest⟩ := approximate_closest hb y
  have hle := hclosest q hq
  by_contra hne
  have hfar := one_le_abs_sub_mul hne
  have htri : |approximate bound y - q| ≤ 2 * |y - q| := by
    calc |approximate bound y - q| ≤ |approximate bound y - y| + |y - q| := abs_sub_le _ _ _
      _ ≤ |q - y| + |y - q| := by gcongr
      _ = 2 * |y - q| := by rw [abs_sub_comm q y]; ring
  have hcast : ((approximate bound y).den : Rat) ≤ bound := by exact_mod_cast hden
  have : |approximate bound y - q| * ((approximate bound y).den * q.den) ≤
      2 * |y - q| * (bound * q.den) := by gcongr
  linarith

end Approximate

end Reckoner.Rational
