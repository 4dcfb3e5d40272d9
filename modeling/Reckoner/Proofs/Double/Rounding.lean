import Mathlib
import Reckoner.Proofs.Double.Decimals

namespace Reckoner.Double

/-- The rational value of the double nearest to `q`, as if there were no largest one. -/
def rounded (q : Rat) : Rat :=
  let s := nearest q.num.natAbs q.den
  if q.num < 0 then -s.value else s.value

/-- The least magnitude that is rounded beyond the largest double. -/
def limit : Rat :=
  2 ^ 1024 - 2 ^ 970

def Representable (q : Rat) : Prop :=
  ∃ (m : Nat) (e : Int), m < 2 ^ 53 ∧ -1074 ≤ e ∧ |q| = m * 2 ^ e

section Limit

theorem limit_eq : limit = (2 ^ 54 - 1) * 2 ^ 970 := by
  rw [limit, sub_mul, ← pow_add, one_mul]

theorem two_pow_le_limit : (2 : Rat) ^ 1023 ≤ limit := by
  rw [limit_eq]
  calc (2 : Rat) ^ 1023 = 2 ^ 53 * 2 ^ 970 := by rw [← pow_add]
    _ ≤ (2 ^ 54 - 1) * 2 ^ 970 := by
        gcongr
        norm_num

theorem limit_lt_two_pow : limit < 2 ^ 1024 :=
  sub_lt_self _ (by positivity)

end Limit

section Quotients
variable {n d n' d' k : Nat} {e : Int}

/-- Rounding depends on the value of a quotient only. -/
theorem roundDiv_congr (hd : 0 < d) (hd' : 0 < d') (h : n * d' = n' * d) :
    roundDiv n d = roundDiv n' d' := by
  rw [← roundDiv_mul hd' n d, ← roundDiv_mul hd n' d', mul_comm d' n, h, mul_comm n' d,
    mul_comm d' d]

theorem roundDiv_mul_self (k : Nat) (hd : 0 < d) : roundDiv (k * d) d = k := by
  simp [roundDiv, Nat.mul_div_cancel k hd, hd]

/-- Rounding keeps the order: two quotients could pass each other only by one half each, and then
they are the same. -/
theorem roundDiv_mono (hd : 0 < d) (hd' : 0 < d') (h : n * d' ≤ n' * d) :
    roundDiv n d ≤ roundDiv n' d' := by
  by_contra hlt
  obtain ⟨hup, -⟩ := roundDiv_bounds n hd
  obtain ⟨-, hdown⟩ := roundDiv_bounds n' hd'
  have hstep : (roundDiv n' d' + 1) * d ≤ roundDiv n d * d := Nat.mul_le_mul_right d (by omega)
  have hlow : (2 * roundDiv n' d' + 1) * d ≤ 2 * n := by
    rw [add_mul] at hstep ⊢
    rw [mul_assoc]
    omega
  have hhigh : 2 * n' ≤ (2 * roundDiv n' d' + 1) * d' := by
    rw [add_mul, mul_assoc]
    omega
  have hsame : n' * d ≤ n * d' := by
    have hlow' := Nat.mul_le_mul_right d' hlow
    have hhigh' := Nat.mul_le_mul_right d hhigh
    have hswap : (2 * roundDiv n' d' + 1) * d * d' = (2 * roundDiv n' d' + 1) * d' * d := by ring
    rw [hswap] at hlow'
    have : 2 * (n' * d) ≤ 2 * (n * d') := by linarith
    omega
  exact hlt (roundDiv_congr hd hd' (le_antisymm h hsame)).le

theorem mul_le_mul_of_quotient_le (hd : 0 < d) (hd' : 0 < d') (h : (n : Rat) / d ≤ n' / d') :
    n * d' ≤ n' * d := by
  rw [div_le_div_iff₀ (by positivity) (by positivity)] at h
  exact_mod_cast h

/-- On one grid rounding keeps the order. -/
theorem roundAt_mono (hd : 0 < d) (hd' : 0 < d') (h : (n : Rat) / d ≤ n' / d') :
    roundAt n d e ≤ roundAt n' d' e := by
  obtain ⟨a, b, hb, hquot, hround⟩ := exists_shifted n hd e roundDiv
  obtain ⟨a', b', hb', hquot', hround'⟩ := exists_shifted n' hd' e roundDiv
  rw [roundAt, roundAt, hround, hround']
  apply roundDiv_mono hb hb' (mul_le_mul_of_quotient_le hb hb' _)
  rw [hquot, hquot']
  gcongr

/-- What lies on the grid is left as it is. -/
theorem roundAt_eq (hd : 0 < d) (h : (n : Rat) / d = k * 2 ^ e) : roundAt n d e = k := by
  obtain ⟨a, b, hb, hquot, hround⟩ := exists_shifted n hd e roundDiv
  rw [h, mul_div_cancel_right₀ _ (by positivity), div_eq_iff (by positivity)] at hquot
  have ha : a = k * b := by exact_mod_cast hquot
  rw [roundAt, hround, ha, roundDiv_mul_self k hb]

theorem num_pos_of_quotient_le (hn : 0 < n) (hd : 0 < d) (h : (n : Rat) / d ≤ n' / d') :
    0 < n' := by
  have hpos : (0 : Rat) < n' / d' := lt_of_lt_of_le (by positivity) h
  rcases n'.eq_zero_or_pos with rfl | hn'
  · simp at hpos
  · exact hn'

/-- A larger number lies on a grid that is at least as coarse. -/
theorem gridExponent_mono (hn : 0 < n) (hd : 0 < d) (hd' : 0 < d') (h : (n : Rat) / d ≤ n' / d') :
    gridExponent n d ≤ gridExponent n' d' := by
  have hn' := num_pos_of_quotient_le hn hd h
  rw [gridExponent_eq hn hd, gridExponent_eq hn' hd']
  have := Int.log_mono_right (b := 2) (by positivity) h
  omega

/-- A smaller quotient is rounded to a smaller double. On a coarser grid there is a power of two in
between. -/
theorem nearest_mono (hd : 0 < d) (hd' : 0 < d') (h : (n : Rat) / d ≤ n' / d') :
    (nearest n d).value ≤ (nearest n' d').value := by
  rcases n.eq_zero_or_pos with rfl | hn
  · rw [Scaled.value_eq, Scaled.value_eq]
    simp only [nearest, beq_self_eq_true, if_true, Nat.cast_zero, zero_mul]
    positivity
  have hn' := num_pos_of_quotient_le hn hd h
  have hle := (nearest_onGrid hn hd).mantissa_le
  have hnormal := (nearest_onGrid hn' hd').normal
  have hfinest := (nearest_onGrid hn hd).finest_le
  have hgrid := gridExponent_mono hn hd hd' h
  rw [nearest_of_pos hn] at hle hfinest ⊢
  rw [nearest_of_pos hn'] at hnormal ⊢
  rw [Scaled.value_eq, Scaled.value_eq]
  simp only at hle hnormal hfinest ⊢
  rcases hgrid.eq_or_lt with hsame | hlt
  · rw [hsame]
    gcongr
    exact roundAt_mono hd hd' h
  · have hwide : 2 ^ 52 ≤ roundAt n' d' (gridExponent n' d') := by omega
    calc (roundAt n d (gridExponent n d) : Rat) * 2 ^ gridExponent n d
        ≤ 2 ^ 53 * 2 ^ gridExponent n d := by gcongr; exact_mod_cast hle
      _ = 2 ^ 52 * 2 ^ (gridExponent n d + 1) := by
          rw [zpow_add_one₀ two_ne_zero]
          ring
      _ ≤ 2 ^ 52 * 2 ^ gridExponent n' d' := by
          gcongr
          · exact one_le_two
          · omega
      _ ≤ roundAt n' d' (gridExponent n' d') * 2 ^ gridExponent n' d' := by
          gcongr
          exact_mod_cast hwide

/-- From half a unit above the largest double on, a quotient is rounded up to a power of two. -/
theorem tooLarge_nearest_iff (hn : 0 < n) (hd : 0 < d) :
    (nearest n d).tooLarge = true ↔ limit ≤ n / d := by
  have hsplit : limit = (2 ^ 54 - 1 : Nat) / (2 : Nat) * 2 ^ (971 : Int) := by
    rw [limit_eq, zpow_ofNat, pow_succ (2 : Rat) 970]
    generalize (2 : Rat) ^ 970 = b
    push_cast
    ring
  rcases lt_trichotomy (Int.log 2 ((n : Rat) / d)) 1023 with hlog | hlog | hlog
  · have hlt : (n : Rat) / d < 2 ^ 1023 := by
      rw [← zpow_natCast, ← not_le, zpow_le_quotient_iff _ hn hd]
      push_cast
      omega
    have hsmall : ¬ limit ≤ n / d := not_le.mpr (hlt.trans_le two_pow_le_limit)
    simp [tooLarge_nearest hn hd hlt, hsmall]
  · have hgrid : gridExponent n d = 971 := by
      rw [gridExponent_eq hn hd]
      omega
    rw [nearest_of_pos hn, hgrid]
    simp only [Scaled.tooLarge, lt_irrefl, decide_false, Bool.false_or, beq_self_eq_true,
      Bool.true_and, decide_eq_true_eq, Nat.pow_eq]
    constructor
    · intro hle
      have herror := (abs_le.mp (roundAt_error n hd 971)).2
      have hle' : (2 : Rat) ^ 53 ≤ roundAt n d 971 := by exact_mod_cast hle
      rw [hsplit, ← le_div_iff₀ (by positivity)]
      generalize (n : Rat) / d / 2 ^ (971 : Int) = x at herror
      push_cast
      linarith
    · intro hle
      obtain ⟨a, b, hb, hquot, hround⟩ := exists_shifted n hd 971 roundDiv
      rw [hsplit, ← le_div_iff₀ (by positivity), ← hquot] at hle
      have hhalf : roundDiv (2 ^ 54 - 1) 2 = 2 ^ 53 := by decide
      rw [roundAt, hround, ← hhalf]
      exact roundDiv_mono (by decide) hb (mul_le_mul_of_quotient_le (by decide) hb hle)
  · have hle : (2 : Rat) ^ (1024 : Int) ≤ n / d := by
      rw [zpow_le_quotient_iff _ hn hd]
      omega
    have hlimit : limit ≤ n / d := by
      rw [zpow_ofNat] at hle
      exact limit_lt_two_pow.le.trans hle
    simp [tooLarge_of_le hn hd hle, hlimit]

end Quotients

section Rationals
variable {p q v : Rat}

theorem natAbs_num_div_den_abs (q : Rat) : (q.num.natAbs : Rat) / q.den = |q| := by
  conv_rhs => rw [← Rat.num_div_den q]
  rw [abs_div, Nat.cast_natAbs, Int.cast_abs, Nat.abs_cast]

theorem rounded_of_nonneg (hq : 0 ≤ q) : rounded q = (nearest q.num.natAbs q.den).value := by
  have hnum : ¬ q.num < 0 := not_lt.mpr (Rat.num_nonneg.mpr hq)
  simp only [rounded, hnum, if_false]

/-- Rounding goes the same way on both sides of zero. -/
theorem rounded_neg (q : Rat) : rounded (-q) = -rounded q := by
  simp only [rounded, Rat.num_neg_eq_neg_num, Rat.den_neg_eq_den, Int.natAbs_neg]
  rcases lt_trichotomy q.num 0 with h | h | h
  · have h' : ¬ -q.num < 0 := by omega
    simp only [h, h', if_true, if_false, neg_neg]
  · simp [h, nearest, Scaled.value_eq]
  · have h' : -q.num < 0 := by omega
    simp only [h', h.not_gt, if_true, if_false]

@[simp]
theorem rounded_zero : rounded 0 = 0 := by
  decide +kernel

theorem rounded_nonneg (hq : 0 ≤ q) : 0 ≤ rounded q := by
  rw [rounded_of_nonneg hq, Scaled.value_eq]
  positivity

theorem rounded_mono_of_nonneg (hp : 0 ≤ p) (h : p ≤ q) : rounded p ≤ rounded q := by
  rw [rounded_of_nonneg hp, rounded_of_nonneg (hp.trans h)]
  apply nearest_mono p.den_pos q.den_pos
  rwa [natAbs_num_div_den_abs, natAbs_num_div_den_abs, abs_of_nonneg hp,
    abs_of_nonneg (hp.trans h)]

/-- Rounding keeps the order. -/
theorem rounded_mono (h : p ≤ q) : rounded p ≤ rounded q := by
  rcases le_total 0 p with hp | hp
  · exact rounded_mono_of_nonneg hp h
  rcases le_total 0 q with hq | hq
  · have hp' := rounded_nonneg (neg_nonneg.mpr hp)
    rw [rounded_neg] at hp'
    linarith [rounded_nonneg hq]
  · have hneg := rounded_mono_of_nonneg (neg_nonneg.mpr hq) (neg_le_neg h)
    rw [rounded_neg, rounded_neg] at hneg
    linarith

theorem rounded_abs (q : Rat) : rounded |q| = |rounded q| := by
  rcases le_total 0 q with hq | hq
  · rw [abs_of_nonneg hq, abs_of_nonneg (rounded_nonneg hq)]
  · have hneg := rounded_nonneg (neg_nonneg.mpr hq)
    rw [abs_of_nonpos hq, rounded_neg]
    rw [rounded_neg] at hneg
    rw [abs_of_nonpos (by linarith)]

theorem tooLarge_iff (q : Rat) :
    (nearest q.num.natAbs q.den).tooLarge = true ↔ limit ≤ |q| := by
  rcases eq_or_ne q 0 with rfl | hq
  · have hlimit : ¬ limit ≤ |(0 : Rat)| := by decide +kernel
    have hzero : ¬ (nearest (0 : Rat).num.natAbs (0 : Rat).den).tooLarge = true := by
      decide +kernel
    exact iff_of_false hzero hlimit
  · rw [tooLarge_nearest_iff (by simpa using hq) q.den_pos, natAbs_num_div_den_abs]

theorem tooLarge_eq_false (h : |q| < limit) :
    (nearest q.num.natAbs q.den).tooLarge = false :=
  Bool.eq_false_iff.mpr ((tooLarge_iff q).not.mpr (not_le.mpr h))

/-- The nearest finite double is the rounded number, and there is none from the limit on. -/
theorem round?_eq (q : Rat) : round? q = if |q| < limit then some (rounded q) else none := by
  simp only [round?, tooLarge_iff, rounded]
  by_cases h : |q| < limit
  · rw [if_neg (not_le.mpr h), if_pos h]
  · rw [if_pos (not_lt.mp h), if_neg h]

theorem representable_neg (h : Representable q) : Representable (-q) := by
  obtain ⟨m, e, hm, he, hq⟩ := h
  exact ⟨m, e, hm, he, by rwa [abs_neg]⟩

theorem representable_abs (h : Representable q) : Representable |q| := by
  obtain ⟨m, e, hm, he, hq⟩ := h
  exact ⟨m, e, hm, he, by rwa [abs_abs]⟩

/-- Integers up to `2 ^ 53` are doubles. -/
theorem representable_integer {n : Int} (h : |n| ≤ 2 ^ 53) : Representable n := by
  rcases h.lt_or_eq with hlt | heq
  · have hbits : n.natAbs < 2 ^ 53 := by
      rw [Int.abs_eq_natAbs] at hlt
      omega
    refine ⟨n.natAbs, 0, hbits, by decide, ?_⟩
    rw [zpow_zero, mul_one, Nat.cast_natAbs, Int.cast_abs]
  · refine ⟨2 ^ 52, 1, by decide, by decide, ?_⟩
    rw [← Int.cast_abs, heq]
    norm_num

/-- Doubles are left as they are. -/
theorem Representable.rounded_eq (h : Representable q) : rounded q = q := by
  wlog hq : 0 ≤ q
  · have hneg := this (representable_neg h) (by linarith)
    rw [rounded_neg] at hneg
    linarith
  obtain ⟨m, e, hm, he, hq'⟩ := h
  rw [abs_of_nonneg hq] at hq'
  rcases hq.eq_or_lt with rfl | hpos
  · exact rounded_zero
  obtain ⟨hn, hquot⟩ := natAbs_num_div_den hpos
  -- The grid around the number is not coarser than the one it is given on.
  have hgrid : gridExponent q.num.natAbs q.den ≤ e := by
    have hlog : ¬ e + 53 ≤ Int.log 2 ((q.num.natAbs : Rat) / q.den) := by
      rw [← zpow_le_quotient_iff _ hn q.den_pos, hquot, hq', zpow_add₀ two_ne_zero, not_le,
        mul_comm]
      gcongr
      exact_mod_cast hm
    rw [gridExponent_eq hn q.den_pos]
    omega
  obtain ⟨k, hk⟩ := Int.eq_ofNat_of_zero_le (sub_nonneg.mpr hgrid)
  have hshift : q = ((m * 2 ^ k : Nat) : Rat) * 2 ^ gridExponent q.num.natAbs q.den := by
    generalize gridExponent q.num.natAbs q.den = g at hk
    have he' : e = k + g := by omega
    rw [hq', he', zpow_add₀ two_ne_zero, zpow_natCast]
    push_cast
    ring
  rw [rounded_of_nonneg hq, nearest_of_pos hn, Scaled.value_eq]
  simp only
  rw [roundAt_eq q.den_pos (hquot.trans hshift)]
  exact hshift.symm

/-- Rounding on a grid that is given, if it is the one around the number. -/
theorem rounded_of_grid {n d : Nat} {g : Int} (hd : 0 < d) (hlt : n < 2 ^ 53 * d)
    (hg : -1074 ≤ g) (hn : g = -1074 ∨ 2 ^ 52 * d ≤ n) :
    rounded ((n : Rat) / d * 2 ^ g) = roundDiv n d * 2 ^ g := by
  rcases n.eq_zero_or_pos with rfl | hpos
  · have hzero : roundDiv 0 d = 0 := by simpa using roundDiv_mul_self 0 hd
    simp [hzero]
  have hq : (0 : Rat) < n / d * 2 ^ g := by positivity
  obtain ⟨hnum, hquot⟩ := natAbs_num_div_den hq
  rw [rounded_of_nonneg hq.le, nearest_of_pos hnum, Scaled.value_eq]
  generalize hq' : (n : Rat) / d * 2 ^ g = q at hquot hnum
  have hgrid : gridExponent q.num.natAbs q.den = g := by
    have hbelow : ¬ g + 53 ≤ Int.log 2 ((q.num.natAbs : Rat) / q.den) := by
      rw [← zpow_le_quotient_iff _ hnum q.den_pos, hquot, ← hq', zpow_add₀ two_ne_zero, not_le,
        mul_comm]
      gcongr
      rw [div_lt_iff₀ (by positivity)]
      exact_mod_cast hlt
    have habove : g = -1074 ∨ g + 52 ≤ Int.log 2 ((q.num.natAbs : Rat) / q.den) := by
      refine hn.imp_right fun hle => ?_
      rw [← zpow_le_quotient_iff _ hnum q.den_pos, hquot, ← hq', zpow_add₀ two_ne_zero, mul_comm]
      gcongr
      rw [le_div_iff₀ (by positivity)]
      exact_mod_cast hle
    rw [gridExponent_eq hnum q.den_pos]
    omega
  obtain ⟨a, b, hb, hsame, hround⟩ := exists_shifted q.num.natAbs q.den_pos g roundDiv
  rw [hquot, ← hq', mul_div_cancel_right₀ _ (by positivity),
    div_eq_div_iff (by positivity) (by positivity)] at hsame
  rw [hgrid, roundAt, hround, roundDiv_congr hb hd (by exact_mod_cast hsame)]

end Rationals

end Reckoner.Double
