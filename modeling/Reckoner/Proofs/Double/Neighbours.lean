import Mathlib
import Reckoner.Proofs.Double.Rounding

namespace Reckoner.Double

section Multiples
variable {v x y : Rat} {g : Int}

/-- A double is a multiple of the unit of its grid, and of the units of finer ones. -/
theorem Representable.exists_multiple (h : Representable v)
    (hg : g ≤ -1074 ∨ (2 : Rat) ^ (52 + g) ≤ |v|) : ∃ z : Int, v = z * 2 ^ g := by
  obtain ⟨m, e, hm, he, hv⟩ := h
  have hle : g ≤ e := by
    rcases hg with hg | hg
    · omega
    · by_contra hlt
      rw [hv] at hg
      have hsmall : (m : Rat) * 2 ^ e < 2 ^ (52 + g) := by
        calc (m : Rat) * 2 ^ e < 2 ^ 53 * 2 ^ e := by
              gcongr
              exact_mod_cast hm
          _ = 2 ^ (53 + e) := by rw [zpow_add₀ two_ne_zero, zpow_ofNat]
          _ ≤ 2 ^ (52 + g) := zpow_le_zpow_right₀ one_le_two (by omega)
      exact hsmall.not_ge hg
  obtain ⟨k, hk⟩ := Int.eq_ofNat_of_zero_le (sub_nonneg.mpr hle)
  have hsplit : (m : Rat) * 2 ^ e = ((m * 2 ^ k : Nat) : Int) * 2 ^ g := by
    rw [show e = k + g by omega, zpow_add₀ two_ne_zero, zpow_natCast]
    push_cast
    ring
  rw [hsplit] at hv
  rcases abs_choice v with hpos | hneg
  · exact ⟨_, hpos.symm.trans hv⟩
  · refine ⟨-((m * 2 ^ k : Nat) : Int), ?_⟩
    rw [Int.cast_neg, neg_mul, ← hv, hneg, neg_neg]

/-- Two doubles differ by a unit of the finest grid, which is not lost. -/
theorem rounded_sub_pos (hx : Representable x) (hy : Representable y) (h : x < y) :
    0 < rounded (y - x) := by
  obtain ⟨a, ha⟩ := hx.exists_multiple (g := -1074) (.inl le_rfl)
  obtain ⟨b, hb⟩ := hy.exists_multiple (g := -1074) (.inl le_rfl)
  have hunit : (0 : Rat) < 2 ^ (-1074 : Int) := by positivity
  have hrep : Representable ((2 : Rat) ^ (-1074 : Int)) :=
    ⟨1, -1074, by decide, le_rfl, by rw [Nat.cast_one, one_mul, abs_of_pos hunit]⟩
  have hle : (2 : Rat) ^ (-1074 : Int) ≤ y - x := by
    rw [ha, hb] at h ⊢
    have hlt : a < b := by exact_mod_cast lt_of_mul_lt_mul_right h hunit.le
    have hone : (1 : Rat) ≤ b - a := by exact_mod_cast (by omega : 1 ≤ b - a)
    rw [← sub_mul]
    exact le_mul_of_one_le_left hunit.le hone
  calc 0 < (2 : Rat) ^ (-1074 : Int) := hunit
    _ = rounded (2 ^ (-1074 : Int)) := hrep.rounded_eq.symm
    _ ≤ rounded (y - x) := rounded_mono hle

end Multiples

section Steps
variable {v : Rat}

/-- One less or one more than a multiple is rounded to it. On the grid of two these are ties. -/
theorem roundDiv_near {m g n : Nat} (hm : 0 < m) (hg : 0 < g) (heven : g = 1 → m % 2 = 0)
    (hn : n = m * 2 ^ g + 1 ∨ n + 1 = m * 2 ^ g) : roundDiv n (2 ^ g) = m := by
  have hd : 2 ^ g = 2 ∨ 4 ≤ 2 ^ g := by
    rcases (by omega : g = 1 ∨ 2 ≤ g) with rfl | hle
    · exact .inl rfl
    · exact .inr (Nat.pow_le_pow_right two_pos hle)
  have htie : 2 ^ g = 2 → m % 2 = 0 := fun he => heven (Nat.pow_right_injective le_rfl he)
  generalize 2 ^ g = d at hd htie hn
  simp only [roundDiv, Bool.or_eq_true, decide_eq_true_eq, Bool.and_eq_true, beq_iff_eq]
  rcases hn with rfl | hn
  · obtain ⟨hdiv, hmod⟩ : (m * d + 1) / d = m ∧ (m * d + 1) % d = 1 := by
      rw [Nat.div_mod_unique (by omega)]
      exact ⟨by ring, by omega⟩
    rw [hdiv, hmod, if_pos (by omega)]
  · obtain ⟨hdiv, hmod⟩ : n / d = m - 1 ∧ n % d = d - 1 := by
      rw [Nat.div_mod_unique (by omega)]
      obtain ⟨l, rfl⟩ : ∃ l, m = l + 1 := ⟨m - 1, by omega⟩
      rw [add_mul, one_mul, mul_comm] at hn
      rw [Nat.add_sub_cancel]
      omega
    rw [hdiv, hmod, if_neg (by omega)]
    omega

/-- An integer is rounded on the grid that leaves it 53 bits. -/
theorem rounded_natCast {n g : Nat} (hlow : 2 ^ 52 * 2 ^ g ≤ n) (hhigh : n < 2 ^ 53 * 2 ^ g) :
    rounded n = roundDiv n (2 ^ g) * 2 ^ g := by
  have hround := rounded_of_grid (g := g) (by positivity) hhigh (by omega) (.inr hlow)
  rw [zpow_natCast, Nat.cast_pow, Nat.cast_ofNat, div_mul_cancel₀ _ (by positivity)] at hround
  exact hround

/-- Both neighbours of a multiple of four beyond `2 ^ 53` are rounded to it. -/
theorem rounded_near {w n : Nat} (hw : Representable w) (hfour : 4 ∣ w) (hlarge : 2 ^ 53 < w)
    (hn : n = w + 1 ∨ n + 1 = w) : rounded n = w := by
  have hne : n ≠ 0 := by omega
  obtain ⟨g, hg⟩ : ∃ g, n.log2 = 52 + g + 1 := by
    have hlog : 53 ≤ n.log2 := (Nat.le_log2 hne).mpr (by omega)
    exact ⟨n.log2 - 53, by omega⟩
  have hlow : 2 ^ 52 * 2 ^ (g + 1) ≤ n := by
    rw [← pow_add, ← add_assoc, ← hg]
    exact Nat.log2_self_le hne
  have hhigh : n < 2 ^ 53 * 2 ^ (g + 1) := by
    have hlt : n < 2 ^ (n.log2 + 1) := Nat.lt_log2_self
    rw [hg] at hlt
    rw [← pow_add]
    convert hlt using 2
    ring
  -- The multiple of four lies on the grid itself, as it is not below the first number on it.
  have hon : 2 ^ 52 * 2 ^ (g + 1) ≤ w := by
    rw [pow_succ] at hlow ⊢
    generalize 2 ^ g = t at hlow ⊢
    omega
  obtain ⟨m, hm⟩ : ∃ m : Nat, w = m * 2 ^ (g + 1) := by
    have hon' : (2 : Rat) ^ (52 + ((g + 1 : Nat) : Int)) ≤ |(w : Rat)| := by
      rw [zpow_add₀ two_ne_zero, zpow_natCast, Nat.abs_cast]
      exact_mod_cast hon
    obtain ⟨z, hz⟩ := hw.exists_multiple (.inr hon')
    rw [zpow_natCast] at hz
    have hz' : (w : Int) = z * 2 ^ (g + 1) := by exact_mod_cast hz
    have hpos : 0 ≤ z := nonneg_of_mul_nonneg_left (hz' ▸ Int.natCast_nonneg w) (by positivity)
    refine ⟨z.toNat, ?_⟩
    zify
    rw [Int.toNat_of_nonneg hpos, hz']
  have hpos : 0 < m := by
    rcases m.eq_zero_or_pos with rfl | hpos
    · omega
    · exact hpos
  have heven : g + 1 = 1 → m % 2 = 0 := by
    intro hg
    rw [hg] at hm
    omega
  rw [rounded_natCast hlow hhigh, roundDiv_near hpos g.succ_pos heven (hm ▸ hn), hm]
  push_cast
  rfl

/-- From `2 ^ 54` on doubles are multiples of four. -/
theorem Representable.exists_four_mul (h : Representable v) (hlarge : 2 ^ 54 ≤ |v|) :
    ∃ k : Int, v = 4 * k := by
  obtain ⟨k, hk⟩ := h.exists_multiple (g := 2) (.inr (by exact_mod_cast hlarge))
  refine ⟨k, hk.trans ?_⟩
  norm_num
  ring

/-- Up to `2 ^ 53` there is an integer from one less than a double up to the double. -/
theorem rounded_sub_one_lt_of_le (h : Representable v) (hv : 0 ≤ v) (hle : v ≤ 2 ^ 53) :
    rounded (v - 1) < rounded (v + 1) := by
  have hceil : 0 ≤ ⌈v⌉ := Int.ceil_nonneg hv
  have hceil' : ⌈v⌉ ≤ 2 ^ 53 := Int.ceil_le.mpr (by exact_mod_cast hle)
  have hinteger : Representable ((⌈v⌉ - 1 : Int) : Rat) := by
    apply representable_integer
    rw [abs_le]
    omega
  have hbelow : v - 1 ≤ ((⌈v⌉ - 1 : Int) : Rat) := by
    push_cast
    linarith [Int.le_ceil v]
  have habove : ((⌈v⌉ - 1 : Int) : Rat) < v := by
    push_cast
    linarith [Int.ceil_lt_add_one v]
  calc rounded (v - 1) ≤ rounded ((⌈v⌉ - 1 : Int) : Rat) := rounded_mono hbelow
    _ = (⌈v⌉ - 1 : Int) := hinteger.rounded_eq
    _ < v := habove
    _ = rounded v := h.rounded_eq.symm
    _ ≤ rounded (v + 1) := rounded_mono (by linarith)

/-- On the grid of two, one more than an odd multiple is rounded up. -/
theorem rounded_sub_one_lt_of_odd (h : Representable v) (hlarge : 2 ^ 53 < v)
    (hfour : ¬ ∃ k : Int, v = 4 * k) : rounded (v - 1) < rounded (v + 1) := by
  have habs : |v| = v := abs_of_pos (lt_trans (by norm_num) hlarge)
  have hsmall : v < 2 ^ 54 := by
    by_contra hge
    exact hfour (h.exists_four_mul (habs.symm ▸ not_lt.mp hge))
  obtain ⟨z, hz⟩ := h.exists_multiple (g := 1) (.inr (by rw [habs]; exact_mod_cast hlarge.le))
  rw [zpow_one] at hz
  have hlow : 2 ^ 52 < z := by
    have : (2 : Rat) ^ 52 < z := by linarith
    exact_mod_cast this
  have hhigh : z < 2 ^ 53 := by
    have : (z : Rat) < 2 ^ 53 := by linarith
    exact_mod_cast this
  obtain ⟨m, rfl⟩ := Int.eq_ofNat_of_zero_le (show 0 ≤ z by omega)
  have hodd : m % 2 = 1 := by
    by_contra heven
    refine hfour ⟨(m / 2 : Nat), ?_⟩
    have hm : (m : Rat) = 2 * (m / 2 : Nat) := by exact_mod_cast (by omega : m = 2 * (m / 2))
    rw [hz, Int.cast_natCast, Int.cast_natCast]
    linarith
  have hround : roundDiv (2 * m + 1) (2 ^ 1) = m + 1 := by
    have hdiv : (2 * m + 1) / 2 = m := by omega
    have hmod : (2 * m + 1) % 2 = 1 := by omega
    simp [roundDiv, hdiv, hmod, hodd]
  have hnext : rounded (v + 1) = v + 2 := by
    have hcast : v + 1 = ((2 * m + 1 : Nat) : Rat) := by
      rw [hz]
      push_cast
      ring
    rw [hcast, rounded_natCast (g := 1) (by omega) (by omega), hround, hz]
    push_cast
    ring
  calc rounded (v - 1) ≤ rounded v := rounded_mono (by linarith)
    _ = v := h.rounded_eq
    _ < v + 2 := by linarith
    _ = rounded (v + 1) := hnext.symm

/-- One less and one more than a double are rounded to the same double if and only if the double is
a multiple of four beyond `2 ^ 53`. -/
theorem rounded_sub_one_eq_iff (h : Representable v) :
    rounded (v - 1) = rounded (v + 1) ↔ 2 ^ 53 < |v| ∧ ∃ k : Int, v = 4 * k := by
  wlog hv : 0 ≤ v
  · have hneg := this (representable_neg h) (by linarith)
    have hswap : rounded (-v - 1) = rounded (-v + 1) ↔ rounded (v - 1) = rounded (v + 1) := by
      rw [show -v - 1 = -(v + 1) by ring, show -v + 1 = -(v - 1) by ring, rounded_neg, rounded_neg,
        neg_inj, eq_comm]
    have hfour : (∃ k : Int, -v = 4 * k) ↔ ∃ k : Int, v = 4 * k := by
      constructor <;> rintro ⟨k, hk⟩ <;> exact ⟨-k, by push_cast; linarith⟩
    rw [← hswap, hneg, abs_neg, hfour]
  rw [abs_of_nonneg hv]
  constructor
  · intro hsame
    by_contra hnot
    rcases le_or_gt v (2 ^ 53) with hle | hlarge
    · exact (rounded_sub_one_lt_of_le h hv hle).ne hsame
    · exact (rounded_sub_one_lt_of_odd h hlarge fun hk => hnot ⟨hlarge, hk⟩).ne hsame
  · rintro ⟨hlarge, k, rfl⟩
    have hk : 0 ≤ k := by
      have : (0 : Rat) ≤ k := by linarith
      exact_mod_cast this
    obtain ⟨m, rfl⟩ := Int.eq_ofNat_of_zero_le hk
    have hcast : 4 * ((m : Int) : Rat) = ((4 * m : Nat) : Rat) := by push_cast; rfl
    rw [hcast] at h hlarge ⊢
    have hlarge' : 2 ^ 53 < 4 * m := by exact_mod_cast hlarge
    have hbelow : ((4 * m : Nat) : Rat) - 1 = ((4 * m - 1 : Nat) : Rat) := by
      rw [Nat.cast_sub (by omega), Nat.cast_one]
    have habove : ((4 * m : Nat) : Rat) + 1 = ((4 * m + 1 : Nat) : Rat) := by
      rw [Nat.cast_add, Nat.cast_one]
    rw [hbelow, habove, rounded_near h ⟨m, rfl⟩ hlarge' (.inr (by omega)),
      rounded_near h ⟨m, rfl⟩ hlarge' (.inl rfl)]

/-- If one less and one more are rounded to two doubles, these are not far apart. -/
theorem rounded_add_one_sub_lt (h : Representable v) (hne : rounded (v - 1) ≠ rounded (v + 1)) :
    rounded (v + 1) - rounded (v - 1) < limit := by
  have hsmall : |v| < 2 ^ 54 := by
    by_contra hge
    rw [not_lt] at hge
    exact hne ((rounded_sub_one_eq_iff h).mpr
      ⟨lt_of_lt_of_le (by norm_num) hge, h.exists_four_mul hge⟩)
  have hbound : Representable (2 ^ 55 : Rat) := ⟨1, 55, by decide, by decide, by norm_num⟩
  have hlimit : (2 : Rat) ^ 56 < limit :=
    (pow_lt_pow_right₀ one_lt_two (by decide)).trans_le two_pow_le_limit
  obtain ⟨hlow, hhigh⟩ := abs_lt.mp hsmall
  have habove : rounded (v + 1) ≤ rounded (2 ^ 55) := rounded_mono (by linarith)
  have hbelow : rounded (-2 ^ 55) ≤ rounded (v - 1) := rounded_mono (by linarith)
  rw [hbound.rounded_eq] at habove
  rw [rounded_neg, hbound.rounded_eq] at hbelow
  linarith

end Steps

end Reckoner.Double
