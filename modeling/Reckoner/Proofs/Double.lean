import Mathlib
import Reckoner.Rational.Read

namespace Reckoner.Double

section Rounding
variable {n d : Nat} {e : Int}

theorem roundDiv_bounds (n : Nat) (hd : 0 < d) :
    2 * (roundDiv n d * d) ≤ 2 * n + d ∧ 2 * n ≤ 2 * (roundDiv n d * d) + d := by
  have hsplit : d * (n / d) + n % d = n := Nat.div_add_mod n d
  have hrest : n % d < d := Nat.mod_lt n hd
  rw [mul_comm] at hsplit
  unfold roundDiv
  simp only [Bool.or_eq_true, decide_eq_true_eq, Bool.and_eq_true, beq_iff_eq]
  split
  · constructor <;> omega
  · rw [add_mul]
    constructor <;> omega

/-- A rounded quotient is off by at most one half. -/
theorem roundDiv_error (n : Nat) (hd : 0 < d) : |(roundDiv n d : Rat) - n / d| ≤ 1 / 2 := by
  obtain ⟨hle, hge⟩ := roundDiv_bounds n hd
  have hle' : 2 * ((roundDiv n d : Rat) * d) ≤ 2 * n + d := by exact_mod_cast hle
  have hge' : 2 * (n : Rat) ≤ 2 * ((roundDiv n d : Rat) * d) + d := by exact_mod_cast hge
  have hd' : (0 : Rat) < d := by exact_mod_cast hd
  have hdiff : (roundDiv n d : Rat) - n / d = (roundDiv n d * d - n) / d := by
    field_simp
  rw [hdiff, abs_div, abs_of_pos hd', div_le_iff₀ hd', abs_le]
  constructor <;> linarith

/-- Shifting the numerator or the denominator divides by a power of two. -/
theorem exists_shifted (n : Nat) (hd : 0 < d) (e : Int) (f : Nat → Nat → Nat) :
    ∃ n' d' : Nat, 0 < d' ∧ (n' : Rat) / d' = n / d / 2 ^ e ∧
      (if e < 0 then f (n <<< (-e).toNat) d else f n (d <<< e.toNat)) = f n' d' := by
  by_cases he : e < 0
  · refine ⟨n <<< (-e).toNat, d, hd, ?_, if_pos he⟩
    obtain ⟨k, rfl⟩ : ∃ k : Nat, e = -k := ⟨(-e).toNat, by omega⟩
    simp only [Nat.shiftLeft_eq, neg_neg, Int.toNat_natCast, Nat.cast_mul, Nat.cast_pow,
      Nat.cast_ofNat, zpow_neg, zpow_natCast, div_inv_eq_mul]
    ring
  · refine ⟨n, d <<< e.toNat, by rw [Nat.shiftLeft_eq]; positivity, ?_, if_neg he⟩
    obtain ⟨k, rfl⟩ := Int.eq_ofNat_of_zero_le (not_lt.mp he)
    simp only [Nat.shiftLeft_eq, Int.toNat_natCast, Nat.cast_mul, Nat.cast_pow, Nat.cast_ofNat,
      zpow_natCast, div_div]

/-- A multiple of a grid is off by at most half of it. -/
theorem roundAt_error (n : Nat) (hd : 0 < d) (e : Int) :
    |(roundAt n d e : Rat) - n / d / 2 ^ e| ≤ 1 / 2 := by
  obtain ⟨n', d', hd', hquot, hround⟩ := exists_shifted n hd e roundDiv
  rw [roundAt, hround, ← hquot]
  exact roundDiv_error n' hd'

theorem Scaled.value_eq (s : Scaled) : s.value = (s.mantissa : Rat) * 2 ^ s.exponent := by
  unfold Scaled.value
  split
  · obtain ⟨k, hk⟩ : ∃ k : Nat, s.exponent = -k := ⟨(-s.exponent).toNat, by omega⟩
    simp only [hk, Rat.mkRat_eq_div, Nat.shiftLeft_eq, neg_neg, Int.toNat_natCast, one_mul,
      Int.cast_natCast, Nat.cast_pow, Nat.cast_ofNat, zpow_neg, zpow_natCast, div_eq_mul_inv]
  · obtain ⟨k, hk⟩ := Int.eq_ofNat_of_zero_le (not_lt.mp ‹¬ s.exponent < 0›)
    simp only [hk, Nat.shiftLeft_eq, Int.toNat_natCast, zpow_natCast]
    push_cast
    rfl

/-- The powers of two around a quotient, from the lengths of its terms. -/
theorem zpow_log2_lt (hn : 0 < n) (hd : 0 < d) :
    (2 : Rat) ^ ((n.log2 : Int) - d.log2 - 1) < n / d ∧
      (n : Rat) / d < 2 ^ ((n.log2 : Int) - d.log2 + 1) := by
  have hd' : (0 : Rat) < d := by exact_mod_cast hd
  have hn₁ : (2 : Rat) ^ (n.log2 : Int) ≤ n := by exact_mod_cast Nat.log2_self_le hn.ne'
  have hn₂ : (n : Rat) < 2 ^ ((n.log2 : Int) + 1) := by exact_mod_cast Nat.lt_log2_self (n := n)
  have hd₁ : (2 : Rat) ^ (d.log2 : Int) ≤ d := by exact_mod_cast Nat.log2_self_le hd.ne'
  have hd₂ : (d : Rat) < 2 ^ ((d.log2 : Int) + 1) := by exact_mod_cast Nat.lt_log2_self (n := d)
  constructor
  · rw [lt_div_iff₀ hd']
    calc (2 : Rat) ^ ((n.log2 : Int) - d.log2 - 1) * d
        < 2 ^ ((n.log2 : Int) - d.log2 - 1) * 2 ^ ((d.log2 : Int) + 1) := by gcongr
      _ = 2 ^ (n.log2 : Int) := by
          rw [← zpow_add₀ two_ne_zero]
          congr 1
          ring
      _ ≤ n := hn₁
  · rw [div_lt_iff₀ hd']
    calc (n : Rat) < 2 ^ ((n.log2 : Int) + 1) := hn₂
      _ = 2 ^ ((n.log2 : Int) - d.log2 + 1) * 2 ^ (d.log2 : Int) := by
          rw [← zpow_add₀ two_ne_zero]
          congr 1
          ring
      _ ≤ 2 ^ ((n.log2 : Int) - d.log2 + 1) * d := by gcongr

/-- A positive rational is a quotient of positive naturals. -/
theorem natAbs_num_div_den {q : Rat} (hq : 0 < q) :
    0 < q.num.natAbs ∧ (q.num.natAbs : Rat) / q.den = q := by
  have hnum : 0 < q.num := Rat.num_pos.mpr hq
  exact ⟨Int.natAbs_pos.mpr hnum.ne', by rw [Nat.cast_natAbs, abs_of_pos hnum, Rat.num_div_den]⟩

theorem zpow_le_quotient_iff (e : Int) (hn : 0 < n) (hd : 0 < d) :
    (2 : Rat) ^ e ≤ n / d ↔ e ≤ Int.log 2 ((n : Rat) / d) := by
  rw [← Int.zpow_le_iff_le_log (by decide) (by positivity), Nat.cast_ofNat]

/-- The grid leaves a quotient 53 bits, unless it would be finer than the finest. -/
theorem gridExponent_eq (hn : 0 < n) (hd : 0 < d) :
    gridExponent n d = max (Int.log 2 ((n : Rat) / d) - 52) (-1074) := by
  obtain ⟨hlow, hhigh⟩ := zpow_log2_lt hn hd
  rw [← not_le, zpow_le_quotient_iff _ hn hd] at hhigh
  have hlow' := (zpow_le_quotient_iff _ hn hd).mp hlow.le
  obtain ⟨n', d', hd', hquot, hwide⟩ :=
    exists_shifted n hd ((n.log2 : Int) - d.log2 - 53) (fun n d => n / d)
  have hwide' : Nat.pow 2 53 ≤ n' / d' ↔ (n.log2 : Int) - d.log2 ≤ Int.log 2 ((n : Rat) / d) := by
    have hscale : (0 : Rat) < 2 ^ ((n.log2 : Int) - d.log2 - 53) := by positivity
    have hsplit : (2 : Rat) ^ ((n.log2 : Int) - d.log2) =
        2 ^ 53 * 2 ^ ((n.log2 : Int) - d.log2 - 53) := by
      rw [← zpow_natCast, ← zpow_add₀ two_ne_zero]
      congr 1
      push_cast
      ring
    rw [← zpow_le_quotient_iff _ hn hd, hsplit, ← le_div_iff₀ hscale, ← hquot,
      le_div_iff₀ (by positivity), Nat.le_div_iff_mul_le hd']
    exact_mod_cast Iff.rfl
  unfold gridExponent
  simp only [hwide, hwide']
  congr 1
  split <;> omega

end Rounding

section Nearest
variable {n d : Nat}

/-- A magnitude as doubles have them: 53 bits on its grid, fewer only on the finest. -/
structure Scaled.OnGrid (s : Scaled) : Prop where
  mantissa_le : s.mantissa ≤ 2 ^ 53
  finest_le : -1074 ≤ s.exponent
  normal : s.exponent = -1074 ∨ 2 ^ 52 ≤ s.mantissa

theorem quotient_lt (hn : 0 < n) (hd : 0 < d) :
    (n : Rat) / d / 2 ^ gridExponent n d < 2 ^ 53 := by
  have hlog := (zpow_le_quotient_iff (Int.log 2 ((n : Rat) / d) + 1) hn hd).not.mpr (by omega)
  rw [div_lt_iff₀ (by positivity), ← zpow_natCast, ← zpow_add₀ two_ne_zero]
  refine (not_le.mp hlog).trans_le (zpow_le_zpow_right₀ one_le_two ?_)
  rw [gridExponent_eq hn hd]
  push_cast
  omega

/-- Above the finest grid there are all 53 bits. -/
theorem le_quotient (hn : 0 < n) (hd : 0 < d)
    (he : gridExponent n d ≠ -1074 ∨ (2 : Rat) ^ (-1022 : Int) ≤ n / d) :
    2 ^ 52 ≤ (n : Rat) / d / 2 ^ gridExponent n d := by
  rw [le_div_iff₀ (by positivity), ← zpow_natCast, ← zpow_add₀ two_ne_zero,
    zpow_le_quotient_iff _ hn hd]
  rw [zpow_le_quotient_iff _ hn hd] at he
  rw [gridExponent_eq hn hd] at he ⊢
  push_cast
  omega

theorem nearest_of_pos (hn : 0 < n) :
    nearest n d = ⟨roundAt n d (gridExponent n d), gridExponent n d⟩ := by
  have hn' : (n == 0) = false := by simpa using hn.ne'
  simp only [nearest, hn', Bool.false_eq_true, if_false]

/-- Rounding gives a magnitude as doubles have them. -/
theorem nearest_onGrid (hn : 0 < n) (hd : 0 < d) : (nearest n d).OnGrid := by
  have herror := abs_le.mp (roundAt_error n hd (gridExponent n d))
  rw [nearest_of_pos hn]
  constructor
  · have hlt : (roundAt n d (gridExponent n d) : Rat) < 2 ^ 53 + 1 := by
      linarith [quotient_lt hn hd, herror.2]
    exact Nat.le_of_lt_succ (by exact_mod_cast hlt)
  · show -1074 ≤ gridExponent n d
    rw [gridExponent_eq hn hd]
    exact le_max_right _ _
  · by_cases he : gridExponent n d = -1074
    · exact .inl he
    · have hlt : (2 ^ 52 : Rat) < roundAt n d (gridExponent n d) + 1 := by
        linarith [le_quotient hn hd (.inl he), herror.1]
      exact .inr (Nat.le_of_lt_succ (by exact_mod_cast hlt))

/-- The nearest double is off by at most half of a unit of its grid. -/
theorem nearest_half_unit (hn : 0 < n) (hd : 0 < d) :
    |(nearest n d).value - n / d| ≤ 1 / 2 * 2 ^ gridExponent n d := by
  have hscale : (0 : Rat) < 2 ^ gridExponent n d := by positivity
  rw [nearest_of_pos hn, Scaled.value_eq]
  have hsplit : (roundAt n d (gridExponent n d) : Rat) * 2 ^ gridExponent n d - n / d =
      (roundAt n d (gridExponent n d) - n / d / 2 ^ gridExponent n d) * 2 ^ gridExponent n d := by
    field_simp
  rw [hsplit, abs_mul, abs_of_pos hscale]
  gcongr
  exact roundAt_error n hd _

/-- Above the finest grid the nearest double is off by at most half of the last of 53 bits. -/
theorem nearest_error (hn : 0 < n) (hd : 0 < d) (h : (2 : Rat) ^ (-1022 : Int) ≤ n / d) :
    |(nearest n d).value - n / d| ≤ n / d / 2 ^ 53 := by
  have hscale : (0 : Rat) < 2 ^ gridExponent n d := by positivity
  have hnormal := le_quotient hn hd (.inr h)
  refine (nearest_half_unit hn hd).trans ?_
  rw [le_div_iff₀ hscale] at hnormal
  rw [le_div_iff₀ (by positivity)]
  linarith

theorem tooLarge_nearest (hn : 0 < n) (hd : 0 < d) (h : (n : Rat) / d < 2 ^ 1023) :
    (nearest n d).tooLarge = false := by
  rw [← zpow_natCast, ← not_le, zpow_le_quotient_iff _ hn hd] at h
  have he : gridExponent n d < 971 := by
    rw [gridExponent_eq hn hd]
    push_cast at h
    omega
  have he₁ : ¬ 971 < gridExponent n d := by omega
  have he₂ : gridExponent n d ≠ 971 := by omega
  simp [nearest_of_pos hn, Scaled.tooLarge, he₁, he₂]

end Nearest

section Bits
open Float.Model (UnpackedFloat Format)

theorem toNat_unpackExponent (b : BitVec 64) :
    (@UnpackedFloat.unpackExponent .binary64 b).toNat = b.toNat / 2 ^ 52 % 2 ^ 11 := by
  rw [UnpackedFloat.unpackExponent]
  simp [Nat.shiftRight_eq_div_pow]

/-- Bits that stand for a finite magnitude are those of a double. -/
theorem toBits_ofBits {b : Nat} (hb : b < 2047 * 2 ^ 52) :
    (Float.ofBits b.toUInt64).toBits.toNat = b := by
  have hnat : b.toUInt64.toNat = b := by
    rw [Nat.toUInt64_eq]
    exact UInt64.toNat_ofNat_of_lt' (by simp only [UInt64.size]; omega)
  have hvalid : Format.binary64.Valid b.toUInt64.toBitVec := by
    constructor
    intro he
    have hexponent := toNat_unpackExponent b.toUInt64.toBitVec
    have hones : (-BitVec.ofNat Format.binary64.exponentBits 1).toNat = 2047 := by decide
    rw [he, hones, UInt64.toNat_toBitVec, hnat] at hexponent
    omega
  have hkept : (Float.ofBits b.toUInt64).toBits = b.toUInt64 :=
    UInt64.toBitVec_inj.mp (UnpackedFloat.pack_unpack_of_valid hvalid (by decide))
  rw [hkept, hnat]

theorem isNegative_ofBits {b : Nat} (hb : b < 2047 * 2 ^ 52) :
    isNegative (Float.ofBits b.toUInt64) = false := by
  rw [isNegative, toBits_ofBits hb, decide_eq_false_iff_not, Nat.pow_eq]
  omega

/-- The multiple and the grid can be read off the bits again. -/
theorem scaled_ofBits {b : Nat} (hb : b < 2047 * 2 ^ 52) : scaled (Float.ofBits b.toUInt64) =
    if b < 2 ^ 52 then ⟨b, -1074⟩
    else ⟨b % 2 ^ 52 + 2 ^ 52, (b / 2 ^ 52 : Nat) - 1075⟩ := by
  have hmod : b % 2 ^ 63 = b := Nat.mod_eq_of_lt (by omega)
  simp only [scaled, toBits_ofBits hb, Nat.pow_eq, hmod, beq_iff_eq]
  by_cases h : b < 2 ^ 52
  · rw [if_pos h, if_pos (by omega), Nat.mod_eq_of_lt h]
  · rw [if_neg h, if_neg (by omega)]

theorem Scaled.tooLarge_eq_false_iff {s : Scaled} :
    s.tooLarge = false ↔ s.exponent ≤ 971 ∧ (s.exponent = 971 → s.mantissa < 2 ^ 53) := by
  simp [Scaled.tooLarge]

/-- The double of a magnitude has its value. -/
theorem value_toFloat {s : Scaled} (h : s.OnGrid) (hs : s.tooLarge = false) :
    value s.toFloat = s.value := by
  obtain ⟨hle, hfinest, hnormal⟩ := h
  obtain ⟨hlarge, htop⟩ := Scaled.tooLarge_eq_false_iff.mp hs
  obtain ⟨k, hk⟩ : ∃ k : Nat, s.exponent = k - 1074 := ⟨(s.exponent + 1074).toNat, by omega⟩
  have hk' : (s.exponent + 1074).toNat = k := by omega
  have hb : k * 2 ^ 52 + s.mantissa < 2047 * 2 ^ 52 := by omega
  have hbits : s.toFloat = Float.ofBits (k * 2 ^ 52 + s.mantissa).toUInt64 := by
    simp only [Scaled.toFloat, hs, Bool.false_eq_true, if_false, Nat.shiftLeft_eq, hk']
  rw [hbits, value, isNegative_ofBits hb, if_neg Bool.false_ne_true, scaled_ofBits hb]
  by_cases hsmall : s.mantissa < 2 ^ 52
  · have hk0 : k = 0 := by omega
    rw [if_pos (by omega), Scaled.value_eq, Scaled.value_eq, hk, hk0]
    simp
  rw [if_neg (by omega), Scaled.value_eq, Scaled.value_eq, hk]
  -- A mantissa of 53 ones may have been rounded up, which carries over into the exponent.
  rcases hle.lt_or_eq with hlt | heq
  · have hdiv : (k * 2 ^ 52 + s.mantissa) / 2 ^ 52 = k + 1 := by omega
    have hmod : (k * 2 ^ 52 + s.mantissa) % 2 ^ 52 + 2 ^ 52 = s.mantissa := by omega
    have hexp : ((k + 1 : Nat) : Int) - 1075 = k - 1074 := by omega
    rw [hdiv, hmod, hexp]
  · have hdiv : (k * 2 ^ 52 + s.mantissa) / 2 ^ 52 = k + 2 := by omega
    have hmod : (k * 2 ^ 52 + s.mantissa) % 2 ^ 52 = 0 := by omega
    have hexp : ((k + 2 : Nat) : Int) - 1075 = k - 1074 + 1 := by omega
    rw [hdiv, hmod, heq, hexp, zpow_add_one₀ two_ne_zero]
    push_cast
    ring

theorem mantissa_scaled_lt (x : Float) : (scaled x).mantissa < 2 ^ 53 := by
  have hlt : x.toBits.toNat % 2 ^ 63 % 2 ^ 52 < 2 ^ 52 := Nat.mod_lt _ (by decide)
  simp only [scaled, Nat.pow_eq]
  split <;> simp only <;> omega

theorem abs_value (x : Float) : |value x| = (scaled x).mantissa * 2 ^ (scaled x).exponent := by
  have hsize : |value x| = |(scaled x).value| := by
    unfold value
    split
    · rw [abs_neg]
    · rfl
  rw [hsize, Scaled.value_eq, abs_of_nonneg (by positivity)]

/-- On a coarse grid a double is an integer. -/
theorem abs_value_of_coarse {x : Float} (h : 0 ≤ (scaled x).exponent) :
    ∃ k : Nat, |value x| = (((scaled x).mantissa * 2 ^ k : Nat) : Rat) := by
  obtain ⟨k, hk⟩ := Int.eq_ofNat_of_zero_le h
  refine ⟨k, ?_⟩
  rw [abs_value, hk]
  push_cast
  rw [zpow_natCast]

/-- On a fine grid a double is small. -/
theorem abs_value_lt_of_fine {x : Float} (h : (scaled x).exponent < 0) : |value x| < 2 ^ 52 := by
  have hm : ((scaled x).mantissa : Rat) < 2 ^ 53 := by exact_mod_cast mantissa_scaled_lt x
  rw [abs_value]
  calc ((scaled x).mantissa : Rat) * 2 ^ (scaled x).exponent
      ≤ (scaled x).mantissa * 2 ^ (-1 : Int) := by
        gcongr
        · exact one_le_two
        · omega
    _ < 2 ^ 52 := by
        norm_num
        linarith

end Bits

end Reckoner.Double

namespace Reckoner.Rational
open Double

/-- A positive rational within the range of doubles goes to a double that is off by at most half of
the last of 53 bits. -/
theorem toDouble_error {q : Rat} (hlow : (2 : Rat) ^ (-1022 : Int) ≤ q) (hhigh : q < 2 ^ 1023) :
    toDouble q = .ok (ofRat q) ∧ |value (ofRat q) - q| ≤ q / 2 ^ 53 := by
  have hq : 0 < q := lt_of_lt_of_le (by positivity) hlow
  have hnum : 0 < q.num := Rat.num_pos.mpr hq
  obtain ⟨hn, hfrac⟩ := natAbs_num_div_den hq
  have hlarge := tooLarge_nearest hn q.den_pos (hfrac.symm ▸ hhigh)
  have herror := nearest_error hn q.den_pos (hfrac.symm ▸ hlow)
  rw [hfrac] at herror
  have hofRat : ofRat q = (nearest q.num.natAbs q.den).toFloat := by
    simp only [ofRat, hnum.not_gt, if_false]
  refine ⟨by simp only [toDouble, ofRat?, hlarge, Bool.false_eq_true, if_false], ?_⟩
  rwa [hofRat, value_toFloat (nearest_onGrid hn q.den_pos) hlarge]

end Reckoner.Rational
