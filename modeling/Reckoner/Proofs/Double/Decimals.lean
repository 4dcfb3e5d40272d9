import Mathlib
import Reckoner.Proofs.Double

namespace Reckoner.Double

section Quotients
variable {n d k : Nat}

theorem roundDiv_mul (hk : 0 < k) (n d : Nat) : roundDiv (k * n) (k * d) = roundDiv n d := by
  have hdouble : 2 * (k * (n % d)) = k * (2 * (n % d)) := Nat.mul_left_comm 2 k (n % d)
  have hlt : 2 * (k * (n % d)) < k * d ↔ 2 * (n % d) < d := by
    rw [hdouble, Nat.mul_lt_mul_left hk]
  have heq : 2 * (k * (n % d)) = k * d ↔ 2 * (n % d) = d := by
    rw [hdouble, Nat.mul_right_inj hk.ne']
  simp only [roundDiv, Nat.mul_div_mul_left n d hk, Nat.mul_mod_mul_left, Bool.or_eq_true,
    decide_eq_true_eq, Bool.and_eq_true, beq_iff_eq, hlt, heq]

theorem roundAt_mul (hk : 0 < k) (n d : Nat) (e : Int) :
    roundAt (k * n) (k * d) e = roundAt n d e := by
  simp only [roundAt, Nat.shiftLeft_eq, Nat.mul_assoc, roundDiv_mul hk]

theorem nearest_mul (hk : 0 < k) (n : Nat) (hd : 0 < d) :
    nearest (k * n) (k * d) = nearest n d := by
  rcases n.eq_zero_or_pos with rfl | hn
  · rfl
  have hquot : ((k * n : Nat) : Rat) / (k * d : Nat) = n / d := by
    have hk' : (k : Rat) ≠ 0 := by exact_mod_cast hk.ne'
    push_cast
    exact mul_div_mul_left _ _ hk'
  have hgrid : gridExponent (k * n) (k * d) = gridExponent n d := by
    rw [gridExponent_eq (Nat.mul_pos hk hn) (Nat.mul_pos hk hd), gridExponent_eq hn hd, hquot]
  rw [nearest_of_pos (Nat.mul_pos hk hn), nearest_of_pos hn, hgrid, roundAt_mul hk]

/-- The nearest double depends on the value of a quotient only. -/
theorem nearest_num_den (n : Nat) (hd : 0 < d) :
    nearest ((n : Rat) / d).num.natAbs ((n : Rat) / d).den = nearest n d := by
  obtain ⟨c, hn, hc⟩ := Rat.num_den_mk (q := (n : Rat) / d) (n := n) (d := d) (by omega)
    (by rw [Rat.divInt_eq_div]; rfl)
  generalize (n : Rat) / d = q at hn hc
  have hden : (0 : Int) < q.den := by exact_mod_cast q.den_pos
  have hpos : 0 < c := by
    by_contra hle
    have := mul_nonpos_of_nonpos_of_nonneg (not_lt.mp hle) hden.le
    omega
  obtain ⟨k, rfl⟩ := Int.eq_ofNat_of_zero_le hpos.le
  have hk : 0 < k := by omega
  have hn' : n = k * q.num.natAbs := by
    have := congrArg Int.natAbs hn
    rwa [Int.natAbs_mul, Int.natAbs_natCast, Int.natAbs_natCast] at this
  have hd' : d = k * q.den := by exact_mod_cast hc
  rw [hn', hd', nearest_mul hk _ q.den_pos]

/-- So does the finite one. -/
theorem round?_quotient (n : Nat) (hd : 0 < d) :
    round? ((n : Rat) / d) =
      if (nearest n d).tooLarge then none else some (nearest n d).value := by
  have hnum : ¬ ((n : Rat) / d).num < 0 := by
    rw [Rat.num_neg, not_lt]
    positivity
  simp only [round?, nearest_num_den n hd, if_neg hnum]

theorem onGrid_nearest (n : Nat) (hd : 0 < d) : (nearest n d).OnGrid := by
  rcases n.eq_zero_or_pos with rfl | hn
  · exact ⟨Nat.zero_le _, le_rfl, .inl rfl⟩
  · exact nearest_onGrid hn hd

end Quotients

section Range
variable {n d m k : Nat}

/-- From `2 ^ 1024` on there is no finite double. -/
theorem tooLarge_of_le (hn : 0 < n) (hd : 0 < d) (h : (2 : Rat) ^ (1024 : Int) ≤ n / d) :
    (nearest n d).tooLarge = true := by
  rw [zpow_le_quotient_iff _ hn hd] at h
  have he : 971 < gridExponent n d := by
    rw [gridExponent_eq hn hd]
    omega
  simp [nearest_of_pos hn, Scaled.tooLarge, he]

/-- Less than half of the smallest double is rounded to zero. -/
theorem nearest_of_lt (hd : 0 < d) (h : (n : Rat) / d < 2 ^ (-1075 : Int)) :
    nearest n d = ⟨0, -1074⟩ := by
  rcases n.eq_zero_or_pos with rfl | hn
  · rfl
  have hgrid : gridExponent n d = -1074 := by
    rw [← not_le, zpow_le_quotient_iff _ hn hd] at h
    rw [gridExponent_eq hn hd]
    omega
  have hhalf : (n : Rat) / d / 2 ^ (-1074 : Int) < 1 / 2 := by
    have hsplit : (2 : Rat) ^ (-1075 : Int) = 1 / 2 * 2 ^ (-1074 : Int) := by
      rw [one_div, ← zpow_neg_one, ← zpow_add₀ two_ne_zero]
      rfl
    rwa [div_lt_iff₀ (by positivity), ← hsplit]
  have herror := (abs_le.mp (roundAt_error n hd (-1074))).2
  have hlt : (roundAt n d (-1074) : Rat) < 1 := by linarith
  have hzero : roundAt n d (-1074) = 0 := by
    have : roundAt n d (-1074) < 1 := by exact_mod_cast hlt
    omega
  rw [nearest_of_pos hn, hgrid, hzero]

/-- Three bits are less than a digit. -/
theorem two_pow_le_ten_pow {i j : Nat} (h : i ≤ 3 * j) : (2 : Rat) ^ i ≤ 10 ^ j :=
  calc (2 : Rat) ^ i ≤ 2 ^ (3 * j) := pow_le_pow_right₀ one_le_two h
    _ = 8 ^ j := by rw [pow_mul]; norm_num
    _ ≤ 10 ^ j := pow_le_pow_left₀ (by norm_num) (by norm_num) j

/-- An exponent far below the number of bits leaves less than the smallest double. -/
theorem quotient_lt_of_bits (h : 400 + m.log2 / 3 < k) :
    (m : Rat) / (10 ^ k : Nat) < 2 ^ (-1075 : Int) := by
  rw [Nat.cast_pow, Nat.cast_ofNat, zpow_neg, zpow_ofNat, div_lt_iff₀ (by positivity),
    inv_mul_eq_div, lt_div_iff₀ (by positivity)]
  calc (m : Rat) * 2 ^ 1075 < 2 ^ (m.log2 + 1) * 2 ^ 1075 := by
        gcongr
        exact_mod_cast Nat.lt_log2_self
    _ ≤ 10 ^ (m.log2 / 3 + 1) * 10 ^ 400 := by
        gcongr
        · exact two_pow_le_ten_pow (by omega)
        · exact two_pow_le_ten_pow (by decide)
    _ = 10 ^ (m.log2 / 3 + 1 + 400) := (pow_add _ _ _).symm
    _ ≤ 10 ^ k := pow_le_pow_right₀ (by norm_num) (by omega)

/-- Ten bits are more than three digits. -/
theorem ten_pow_le_two_pow {i j : Nat} (h : 10 * j ≤ 3 * i) : 10 ^ j ≤ 2 ^ i := by
  have hcube : (10 ^ j) ^ 3 ≤ (2 ^ i) ^ 3 := by
    calc (10 ^ j) ^ 3 = 1000 ^ j := by rw [← Nat.pow_mul, Nat.mul_comm, Nat.pow_mul]
      _ ≤ 1024 ^ j := Nat.pow_le_pow_left (by decide) j
      _ = 2 ^ (10 * j) := by rw [Nat.pow_mul]
      _ ≤ 2 ^ (3 * i) := Nat.pow_le_pow_right (by decide) h
      _ = (2 ^ i) ^ 3 := by rw [Nat.mul_comm, Nat.pow_mul]
  exact (Nat.pow_le_pow_iff_left (by decide)).mp hcube

/-- A mantissa with far more bits than the exponent has digits is too large. -/
theorem le_quotient_of_bits (hm : m ≠ 0) (h : 400 + k < m.log2 * 3 / 10) :
    (2 : Rat) ^ (1024 : Int) ≤ m / (10 ^ k : Nat) := by
  have hdigits : 10 ^ (400 + k) ≤ m := (ten_pow_le_two_pow (by omega)).trans (Nat.log2_self_le hm)
  rw [Nat.cast_pow, Nat.cast_ofNat, zpow_ofNat, le_div_iff₀ (by positivity)]
  calc (2 : Rat) ^ 1024 * 10 ^ k ≤ 10 ^ 400 * 10 ^ k := by
        gcongr
        exact two_pow_le_ten_pow (by decide)
    _ = 10 ^ (400 + k) := (pow_add _ _ _).symm
    _ ≤ m := by exact_mod_cast hdigits

/-- Below `2 ^ k` the nearest double is off by at most half of the last of 53 bits. -/
theorem round?_error {q : Rat} (hq : 0 < q) (hlt : q < 2 ^ k) (hk : k ≤ 1023) :
    ∃ v, round? q = some v ∧ |v - q| ≤ 1 / 2 * 2 ^ ((k : Int) - 53) := by
  obtain ⟨hn, hfrac⟩ := natAbs_num_div_den hq
  have hlarge : (nearest q.num.natAbs q.den).tooLarge = false := by
    refine tooLarge_nearest hn q.den_pos ?_
    rw [hfrac]
    exact hlt.trans_le (pow_le_pow_right₀ one_le_two hk)
  have hgrid : gridExponent q.num.natAbs q.den ≤ k - 53 := by
    have hlog : ¬ (k : Int) ≤ Int.log 2 ((q.num.natAbs : Rat) / q.den) := by
      rw [← zpow_le_quotient_iff _ hn q.den_pos, hfrac, zpow_natCast]
      exact not_le.mpr hlt
    rw [gridExponent_eq hn q.den_pos]
    omega
  have herror := nearest_half_unit hn q.den_pos
  rw [hfrac] at herror
  refine ⟨(nearest q.num.natAbs q.den).value, ?_, herror.trans ?_⟩
  · simp only [round?, hlarge, Bool.false_eq_true, if_false, (Rat.num_pos.mpr hq).not_gt]
  · gcongr
    exact one_le_two

end Range

section Bits
open Float.Model (UnpackedFloat Format)

inductive IsMagnitude : UnpackedFloat → Prop where
  | zero (s : UnpackedFloat.Sign) : IsMagnitude (.zero s)
  | finite (s : UnpackedFloat.Sign) (m : Nat) (e : Int) (h : 0 < m) : IsMagnitude (.finite s m e h)

theorem IsMagnitude.of_exponent {b : BitVec 64}
    (h : @UnpackedFloat.unpackExponent .binary64 b ≠ -BitVec.ofNat 11 1) :
    IsMagnitude (UnpackedFloat.unpack .binary64 b) := by
  unfold UnpackedFloat.unpack
  rw [if_neg h]
  split
  · split
    · exact .zero _
    · exact .finite ..
  · exact .finite ..

theorem IsMagnitude.beq_infinity {u : UnpackedFloat} (h : IsMagnitude u) (s : UnpackedFloat.Sign) :
    u.beq (.infinity s) = false := by
  cases h <;> cases s <;> rfl

theorem IsMagnitude.isNaN {u : UnpackedFloat} (h : IsMagnitude u) : u.isNaN = false := by
  cases h <;> rfl

theorem unpack_ofBits {b : Nat} (hb : b < 2047 * 2 ^ 52) :
    IsMagnitude (Float.ofBits b.toUInt64).toModel.unpack := by
  refine .of_exponent fun he => ?_
  have hexponent := toNat_unpackExponent (Float.ofBits b.toUInt64).toBits.toBitVec
  have hones : (-BitVec.ofNat 11 1).toNat = 2047 := by decide
  have hkept : @UnpackedFloat.unpackExponent .binary64 (Float.ofBits b.toUInt64).toBits.toBitVec =
      -BitVec.ofNat 11 1 := he
  rw [hkept, hones, UInt64.toNat_toBitVec, toBits_ofBits hb] at hexponent
  omega

theorem isNaN_of_isMagnitude {x : Float} (h : IsMagnitude x.toModel.unpack) : x.isNaN = false :=
  h.isNaN

theorem isInfinite_of_isMagnitude {x : Float} (h : IsMagnitude x.toModel.unpack) :
    isInfinite x = false := by
  have hpos : (x == infinity) = false := h.beq_infinity .positive
  have hneg : (x == -infinity) = false := h.beq_infinity .negative
  rw [isInfinite, hpos, hneg, Bool.or_self]

/-- The bits of a magnitude are those of a finite double. -/
theorem isMagnitude_toFloat {s : Scaled} (h : s.OnGrid) (hs : s.tooLarge = false) :
    IsMagnitude s.toFloat.toModel.unpack := by
  obtain ⟨hle, hfinest, -⟩ := h
  obtain ⟨hlarge, htop⟩ := Scaled.tooLarge_eq_false_iff.mp hs
  rw [Scaled.toFloat, if_neg (Bool.eq_false_iff.mp hs)]
  refine unpack_ofBits ?_
  rw [Nat.shiftLeft_eq]
  omega

end Bits

end Reckoner.Double

namespace Reckoner.Rational
open Double

/-- The exact value of the double of a magnitude, if it is finite. -/
theorem ofDouble_toFloat {s : Scaled} (h : s.OnGrid) :
    (ofDouble s.toFloat).toOption = if s.tooLarge then none else some s.value := by
  by_cases hs : s.tooLarge = true
  · rw [if_pos hs, Scaled.toFloat, if_pos hs]
    rfl
  have hsmall : s.tooLarge = false := Bool.eq_false_iff.mpr hs
  have hmagnitude := isMagnitude_toFloat h hsmall
  rw [if_neg hs, ofDouble, isNaN_of_isMagnitude hmagnitude, isInfinite_of_isMagnitude hmagnitude,
    value_toFloat h hsmall]
  rfl

/-- A decimal is rounded as the rational that it is. -/
theorem ofDouble_ofDecimal (m k : Nat) :
    (ofDouble (ofDecimal false m (-k))).toOption = round? ((m : Rat) / (10 ^ k : Nat)) := by
  have hpow : 0 < 10 ^ k := by positivity
  have hplain : (ofDouble (nearest m (10 ^ k)).toFloat).toOption =
      round? ((m : Rat) / (10 ^ k : Nat)) := by
    rw [ofDouble_toFloat (onGrid_nearest m hpow), round?_quotient m hpow]
  simp only [ofDecimal, Bool.or_eq_true, beq_iff_eq, decide_eq_true_eq, Bool.false_eq_true,
    if_false]
  split_ifs with hsmall hlarge hneg
  · have hlt : (m : Rat) / (10 ^ k : Nat) < 2 ^ (-1075 : Int) := by
      rcases hsmall with rfl | hbits
      · rw [Nat.cast_zero, zero_div]
        positivity
      · exact quotient_lt_of_bits (by omega)
    rw [round?_quotient m hpow, nearest_of_lt hpow hlt]
    rfl
  · have hm : m ≠ 0 := fun he => hsmall (.inl he)
    have hle := le_quotient_of_bits (m := m) (k := k) hm (by omega)
    rw [round?_quotient m hpow, if_pos (tooLarge_of_le (Nat.pos_of_ne_zero hm) hpow hle)]
    rfl
  · rw [neg_neg, Int.toNat_natCast, Nat.pow_eq]
    exact hplain
  · have hk : k = 0 := by omega
    subst hk
    rw [← hplain]
    simp

end Reckoner.Rational
