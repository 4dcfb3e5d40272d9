import Mathlib
import Reckoner.Proofs.Double.Rounding

namespace Reckoner.Double
open Float.Model (UnpackedFloat Format)
open Float.Model.UnpackedFloat (Sign)

def signed : Sign → Rat → Rat
  | .negative, q => -q
  | .positive, q => q

def numeric : UnpackedFloat → Rat
  | .finite s m e _ => signed s (m * 2 ^ e)
  | _ => 0

@[simp]
theorem numeric_zero (s : Sign) : numeric (.zero s) = 0 := rfl

/-- The parts of a finite double, as if there were no largest one. -/
inductive Canonical : UnpackedFloat → Prop where
  | zero (s : Sign) : Canonical (.zero s)
  | finite (s : Sign) (m : Nat) (e : Int) (h : 0 < m) (hm : m < 2 ^ 53) (he : -1074 ≤ e)
      (hn : e = -1074 ∨ 2 ^ 52 ≤ m) : Canonical (.finite s m e h)

section Bits

theorem toNat_unpackMantissa (b : BitVec 64) :
    (@UnpackedFloat.unpackMantissa .binary64 b).toNat = b.toNat % 2 ^ 52 := by
  rw [UnpackedFloat.unpackMantissa]
  simp

theorem sign_unpackSign (b : BitVec 64) :
    Sign.ofBitVec (@UnpackedFloat.unpackSign .binary64 b) =
      if b.toNat < 2 ^ 63 then .positive else .negative := by
  have hbit : (@UnpackedFloat.unpackSign .binary64 b).toNat = b.toNat / 2 ^ 63 % 2 := by
    rw [UnpackedFloat.unpackSign]
    simp [Nat.shiftRight_eq_div_pow]
  have hb := b.isLt
  rw [Sign.ofBitVec]
  congr 1
  rw [← BitVec.toNat_inj, hbit, eq_iff_iff]
  simp only [BitVec.toNat_ofNat]
  omega

/-- The bit in front of a mantissa. -/
theorem toNat_implicit (m : BitVec 52) : (BitVec.ofNat 1 1 ++ m).toNat = 2 ^ 52 + m.toNat := by
  rw [BitVec.toNat_append, ← Nat.shiftLeft_add_eq_or_of_lt m.isLt]
  simp [Nat.shiftLeft_eq]

end Bits

section Unpack
variable {x : Float}

/-- The magnitude of a double by the fields of its bits. -/
theorem scaled_eq (x : Float) : scaled x =
    if x.toBits.toNat / 2 ^ 52 % 2 ^ 11 = 0 then ⟨x.toBits.toNat % 2 ^ 52, -1074⟩
    else ⟨2 ^ 52 + x.toBits.toNat % 2 ^ 52, (x.toBits.toNat / 2 ^ 52 % 2 ^ 11 : Nat) - 1075⟩ := by
  have hdiv : x.toBits.toNat % 2 ^ 63 / 2 ^ 52 = x.toBits.toNat / 2 ^ 52 % 2 ^ 11 := by omega
  have hmod : x.toBits.toNat % 2 ^ 63 % 2 ^ 52 = x.toBits.toNat % 2 ^ 52 := by omega
  simp only [scaled, Nat.pow_eq, hdiv, hmod, beq_iff_eq, Nat.add_comm (2 ^ 52)]

theorem value_eq_signed (x : Float) :
    value x = signed (if x.toBits.toNat < 2 ^ 63 then .positive else .negative)
      ((scaled x).mantissa * 2 ^ (scaled x).exponent) := by
  rw [value, isNegative, Nat.pow_eq, ← Scaled.value_eq]
  by_cases h : x.toBits.toNat < 2 ^ 63
  · rw [if_pos h, if_neg (by simpa using h)]
    rfl
  · rw [if_neg h, if_pos (by simpa using h)]
    rfl

/-- What the bits of a double say, unless the exponent is all ones. -/
theorem canonical_of_exponent
    (h : @UnpackedFloat.unpackExponent .binary64 x.toBits.toBitVec ≠ -BitVec.ofNat 11 1) :
    Canonical x.toModel.unpack ∧ numeric x.toModel.unpack = value x ∧
      (scaled x).exponent ≤ 971 := by
  have hmantissa := toNat_unpackMantissa x.toBits.toBitVec
  have hexponent := toNat_unpackExponent x.toBits.toBitVec
  have hones : (-BitVec.ofNat 11 1).toNat = 2047 := by decide
  have hscaled := scaled_eq x
  have hvalue := value_eq_signed x
  have hbias : (Format.binary64.exponentBias : Int) + Format.binary64.mantissaBitsWithoutImplicit
      = 1075 := by decide
  rw [Ne, ← BitVec.toNat_inj, hones, hexponent] at h
  show Canonical (UnpackedFloat.unpack .binary64 x.toBits.toBitVec) ∧
    numeric (UnpackedFloat.unpack .binary64 x.toBits.toBitVec) = value x ∧ _
  unfold UnpackedFloat.unpack
  rw [if_neg (by rwa [← BitVec.toNat_inj, hexponent]), sign_unpackSign, hbias]
  rw [UInt64.toNat_toBitVec] at hmantissa hexponent h ⊢
  by_cases he : x.toBits.toNat / 2 ^ 52 % 2 ^ 11 = 0
  · rw [if_pos he] at hscaled
    rw [if_pos (by rw [← BitVec.toNat_inj, hexponent, he]; rfl), hvalue, hscaled]
    split
    · rename_i hzero
      rw [hzero] at hmantissa
      have hf : x.toBits.toNat % 2 ^ 52 = 0 := hmantissa.symm
      refine ⟨.zero _, ?_, by simp⟩
      simp only [numeric, hf, Nat.cast_zero, zero_mul]
      split <;> simp [signed]
    · simp only [hmantissa, hexponent, he]
      refine ⟨.finite _ _ _ _ (by omega) (by decide) (.inl (by decide)), rfl, by simp⟩
  · rw [if_neg he] at hscaled
    rw [if_neg (by rw [← BitVec.toNat_inj, hexponent]; exact he), hvalue, hscaled]
    simp only [toNat_implicit, hmantissa, hexponent]
    exact ⟨.finite _ _ _ _ (by omega) (by omega) (.inr (by omega)), rfl, by omega⟩

theorem isMagnitude_of_canonical {u : UnpackedFloat} (h : Canonical u) : IsMagnitude u := by
  cases h with
  | zero s => exact .zero s
  | finite s m e h => exact .finite s m e h

theorem isFinite_of_isMagnitude (h : IsMagnitude x.toModel.unpack) : isFinite x = true := by
  rw [isFinite, isNaN_of_isMagnitude h, isInfinite_of_isMagnitude h]
  rfl

theorem isFinite_iff : isFinite x = true ↔ x.isNaN = false ∧ isInfinite x = false := by
  rw [isFinite, Bool.and_eq_true, Bool.not_eq_true', Bool.not_eq_true']

/-- The exponent of a finite double is not all ones. -/
theorem exponent_of_isFinite (h : isFinite x = true) :
    @UnpackedFloat.unpackExponent .binary64 x.toBits.toBitVec ≠ -BitVec.ofNat 11 1 := by
  intro hones
  have hunpack : x.toModel.unpack = UnpackedFloat.unpack .binary64 x.toBits.toBitVec := rfl
  unfold UnpackedFloat.unpack at hunpack
  rw [if_pos hones] at hunpack
  obtain ⟨hnan, hinf⟩ := isFinite_iff.mp h
  split at hunpack
  · have hequal : isInfinite x = (x.toModel.unpack.beq (.infinity .positive) ||
        x.toModel.unpack.beq (.infinity .negative)) := rfl
    rw [hequal, hunpack] at hinf
    generalize Sign.ofBitVec (@UnpackedFloat.unpackSign .binary64 x.toBits.toBitVec) = s at hinf
    cases s <;> exact absurd hinf (by decide)
  · have hequal : x.isNaN = x.toModel.unpack.isNaN := rfl
    rw [hequal, hunpack] at hnan
    exact absurd hnan (by decide)

/-- A finite double is the number that its parts stand for. -/
theorem canonical_unpack (h : isFinite x = true) :
    Canonical x.toModel.unpack ∧ numeric x.toModel.unpack = value x ∧
      (scaled x).exponent ≤ 971 :=
  canonical_of_exponent (exponent_of_isFinite h)

end Unpack

section Pack

theorem toNat_packComponents (s : Sign) (e : BitVec 11) (m : BitVec 52) :
    (UnpackedFloat.packComponents .binary64 s e m).toNat =
      s.toBitVec.toNat * 2 ^ 63 + e.toNat * 2 ^ 52 + m.toNat := by
  rw [UnpackedFloat.packComponents, BitVec.toNat_append, ← Nat.shiftLeft_add_eq_or_of_lt m.isLt,
    BitVec.toNat_append, ← Nat.shiftLeft_add_eq_or_of_lt e.isLt]
  simp only [Nat.shiftLeft_eq]
  omega

theorem sign_packComponents (s : Sign) (e : BitVec 11) (m : BitVec 52) :
    Sign.ofBitVec (UnpackedFloat.unpackSign (UnpackedFloat.packComponents .binary64 s e m)) =
      s := by
  have he := e.isLt
  have hm := m.isLt
  rw [sign_unpackSign, toNat_packComponents]
  cases s with
  | negative =>
    refine if_neg ?_
    simp only [Sign.toBitVec, BitVec.toNat_ofNat]
    omega
  | positive =>
    refine if_pos ?_
    simp only [Sign.toBitVec, BitVec.toNat_ofNat]
    omega

theorem bias_eq : (Format.binary64.exponentBias : Int) + (52 : Nat) = 1075 := by
  decide

theorem biased_eq (e : Int) :
    e + (Format.binary64.exponentBias : Int) + (52 : Nat) = e + 1075 := by
  rw [add_assoc, bias_eq]

/-- Bits with an exponent that is neither zero nor all ones have a hidden bit in front. -/
theorem unpack_normal (s : Sign) {e : Nat} (m : BitVec 52) (h₀ : 0 < e) (h : e < 2047) :
    UnpackedFloat.unpack .binary64
        (UnpackedFloat.packComponents .binary64 s (BitVec.ofNat 11 e) m) =
      .finite s (2 ^ 52 + m.toNat) (e - 1075) (Nat.add_pos_left (by decide) _) := by
  have he : (BitVec.ofNat 11 e).toNat = e := by
    rw [BitVec.toNat_ofNat]
    omega
  have hones : BitVec.ofNat 11 e ≠ -BitVec.ofNat 11 1 := by
    intro heq
    have : (-BitVec.ofNat 11 1).toNat = 2047 := by decide
    rw [← heq, he] at this
    omega
  have hzero : BitVec.ofNat 11 e ≠ BitVec.ofNat 11 0 := by
    intro heq
    rw [heq] at he
    exact h₀.ne he
  unfold UnpackedFloat.unpack
  simp only [UnpackedFloat.unpackMantissa_packComponents,
    UnpackedFloat.unpackExponent_packComponents, sign_packComponents, toNat_implicit, he, bias_eq]
  rw [if_neg hones, if_neg hzero]

theorem unpack_subnormal (s : Sign) {m : Nat} (h₀ : 0 < m) (h : m < 2 ^ 52) :
    UnpackedFloat.unpack .binary64
        (UnpackedFloat.packComponents .binary64 s (BitVec.ofNat 11 0) (BitVec.ofNat 52 m)) =
      .finite s m (-1074) h₀ := by
  have hm : (BitVec.ofNat 52 m).toNat = m := by
    rw [BitVec.toNat_ofNat]
    omega
  have hzero : BitVec.ofNat 52 m ≠ BitVec.ofNat 52 0 := by
    intro heq
    rw [heq] at hm
    exact h₀.ne hm
  unfold UnpackedFloat.unpack
  simp only [UnpackedFloat.unpackMantissa_packComponents,
    UnpackedFloat.unpackExponent_packComponents, sign_packComponents, hm, bias_eq]
  rw [if_neg (by decide), if_pos trivial, dif_neg hzero]
  rfl

theorem abs_numeric {s : Sign} {m : Nat} {e : Int} (h : 0 < m) :
    |numeric (.finite s m e h)| = m * 2 ^ e := by
  cases s <;> simp [numeric, signed, abs_mul, abs_zpow]

theorem two_pow_le_numeric {s : Sign} {m : Nat} {e : Int} (h : 0 < m) (hn : 2 ^ 52 ≤ m)
    (he : 971 < e) : 2 ^ 1024 ≤ |numeric (.finite s m e h)| := by
  rw [abs_numeric]
  calc (2 : Rat) ^ 1024 = 2 ^ 52 * 2 ^ (972 : Int) := by rw [zpow_ofNat, ← pow_add]
    _ ≤ (m : Rat) * 2 ^ e := by
        gcongr
        · exact_mod_cast hn
        · exact one_le_two
        · omega

theorem log2_eq_iff {m : Nat} (h : 0 < m) (hm : m < 2 ^ 53) : 
    m.log2 + 1 = Format.binary64.mantissaBits ↔ 2 ^ 52 ≤ m := by
  have hbits : Format.binary64.mantissaBits = 53 := by decide
  have hlt : m.log2 < 53 := (Nat.log2_lt h.ne').mpr hm
  rw [hbits, ← Nat.le_log2 h.ne']
  omega

/-- Parts that are put into bits can be read off again. -/
theorem unpack_pack {u : UnpackedFloat} (h : Canonical u) (hlt : |numeric u| < 2 ^ 1024) :
    UnpackedFloat.unpack .binary64 (UnpackedFloat.pack .binary64 u) = u := by
  cases h with
  | zero s =>
    simp only [UnpackedFloat.pack, UnpackedFloat.packedZero]
    cases s <;> rfl
  | finite s m e h hm he hn =>
    have hlarge : e ≤ 971 := by
      by_contra hgt
      exact hlt.not_ge (two_pow_le_numeric h (by omega) (by omega))
    have hsmall : ¬ 2 ^ 11 ≤ (e + 1075).toNat + 1 := by omega
    simp only [UnpackedFloat.pack, biased_eq, if_neg hsmall, log2_eq_iff h hm]
    split
    · rename_i hnormal
      have hm' : (BitVec.ofNat 52 m).toNat = m - 2 ^ 52 := by
        rw [BitVec.toNat_ofNat]
        omega
      rw [unpack_normal s _ (by omega) (by omega)]
      congr 1
      · omega
      · omega
    · have he' : e = -1074 := by omega
      subst he'
      exact unpack_subnormal s h (by omega)

/-- An exponent that is too large gives infinity. -/
theorem pack_of_large {s : Sign} {m : Nat} {e : Int} (h : 0 < m) (he : 971 < e) :
    Float.Model.pack (.finite s m e h) = Float.Model.pack (.infinity s) := by
  have hlarge : 2 ^ 11 ≤ (e + 1075).toNat + 1 := by omega
  have hbits : UnpackedFloat.pack .binary64 (.finite s m e h) =
      UnpackedFloat.pack .binary64 (.infinity s) := by
    simp only [UnpackedFloat.pack, biased_eq, if_pos hlarge]
  unfold Float.Model.pack
  simp only [hbits]

end Pack

section Rounding
variable {p q : Rat} {x : Float}

theorem finest_le_scaled (x : Float) : -1074 ≤ (scaled x).exponent := by
  rw [scaled_eq]
  split
  · exact le_rfl
  · show (-1074 : Int) ≤ _ - 1075
    omega

/-- The value of a double lies on its grid. -/
theorem representable_value (x : Float) : Representable (value x) :=
  ⟨_, _, mantissa_scaled_lt x, finest_le_scaled x, abs_value x⟩

/-- The largest double is half a unit below the limit. -/
theorem abs_value_le (h : isFinite x = true) : |value x| ≤ limit - 2 ^ 970 := by
  obtain ⟨-, -, hexponent⟩ := canonical_unpack h
  have hm := mantissa_scaled_lt x
  rw [abs_value, limit_eq]
  calc ((scaled x).mantissa : Rat) * 2 ^ (scaled x).exponent
      ≤ (2 ^ 53 - 1) * 2 ^ (971 : Int) := by
        gcongr
        · have : ((scaled x).mantissa : Rat) + 1 ≤ 2 ^ 53 := by exact_mod_cast hm
          linarith
        · exact one_le_two
    _ = (2 ^ 54 - 1) * 2 ^ 970 - 2 ^ 970 := by
        rw [zpow_ofNat, pow_succ (2 : Rat) 970]
        generalize (2 : Rat) ^ 970 = b
        ring

theorem abs_value_add_one_lt (h : isFinite x = true) : |value x| + 1 < limit := by
  have hle := abs_value_le h
  have hroom : (1 : Rat) < 2 ^ 970 := one_lt_pow₀ one_lt_two (by decide)
  generalize (2 : Rat) ^ 970 = b at hle hroom
  linarith

theorem abs_value_lt (h : isFinite x = true) : |value x| < limit := by
  linarith [abs_value_add_one_lt h]

theorem rounded_limit : rounded limit = 2 ^ 1024 := by
  decide +kernel

theorem two_pow_split : (2 : Rat) ^ 1024 = 2 ^ 53 * 2 ^ (971 : Int) := by
  rw [zpow_ofNat, ← pow_add]

/-- Below the limit nothing is rounded beyond the largest double. -/
theorem rounded_lt (h : |q| < limit) : |rounded q| < 2 ^ 1024 := by
  have hlarge := tooLarge_eq_false (q := |q|) (by rwa [abs_abs])
  obtain ⟨hle, -, -⟩ := onGrid_nearest |q|.num.natAbs |q|.den_pos
  rw [← rounded_abs, rounded_of_nonneg (abs_nonneg q)]
  generalize nearest |q|.num.natAbs |q|.den = s at hlarge hle
  obtain ⟨hexponent, htop⟩ := Scaled.tooLarge_eq_false_iff.mp hlarge
  rw [Scaled.value_eq, two_pow_split]
  rcases hexponent.eq_or_lt with heq | hlt
  · rw [heq]
    gcongr
    exact_mod_cast htop heq
  · calc (s.mantissa : Rat) * 2 ^ s.exponent ≤ 2 ^ 53 * 2 ^ s.exponent := by
          gcongr
          exact_mod_cast hle
      _ < 2 ^ 53 * 2 ^ (971 : Int) := by
          gcongr
          exact one_lt_two

/-- From the limit on a number is rounded up to `2 ^ 1024` or more. -/
theorem le_rounded (h : limit ≤ |q|) : 2 ^ 1024 ≤ |rounded q| := by
  rw [← rounded_abs, ← rounded_limit]
  exact rounded_mono h

structure RoundedTo (x : Float) (q : Rat) : Prop where
  finite : |q| < limit → isFinite x = true ∧ value x = rounded q
  infinite : limit ≤ |q| → x = if q < 0 then -infinity else infinity

/-- Parts that stand for the rounded number make the double, and infinity where it is too large. -/
theorem RoundedTo.of_pack {u : UnpackedFloat} (h : Canonical u) (hq : numeric u = rounded q) :
    RoundedTo (Float.ofModel (Float.Model.pack u)) q := by
  constructor
  · intro hlt
    have hunpack : (Float.ofModel (Float.Model.pack u)).toModel.unpack = u :=
      unpack_pack h (hq ▸ rounded_lt hlt)
    have hfinite : isFinite (Float.ofModel (Float.Model.pack u)) = true := by
      apply isFinite_of_isMagnitude
      rw [hunpack]
      exact isMagnitude_of_canonical h
    obtain ⟨-, hvalue, -⟩ := canonical_unpack hfinite
    rw [hunpack] at hvalue
    exact ⟨hfinite, hvalue.symm.trans hq⟩
  · intro hle
    have hlarge := le_rounded hle
    rw [← hq] at hlarge
    cases h with
    | zero s =>
      simp only [numeric, abs_zero] at hlarge
      exact absurd hlarge (not_le.mpr (by positivity))
    | finite s m e h hm he hn =>
      have hlt : 971 < e := by
        by_contra hle
        rw [abs_numeric, two_pow_split, ← not_lt] at hlarge
        apply hlarge
        calc (m : Rat) * 2 ^ e < 2 ^ 53 * 2 ^ e := by
              gcongr
              exact_mod_cast hm
          _ ≤ 2 ^ 53 * 2 ^ (971 : Int) := by
              gcongr
              · exact one_le_two
              · omega
      have hpos : (0 : Rat) < m * 2 ^ e := by positivity
      rw [pack_of_large h hlt]
      cases s with
      | negative =>
        have hneg : q < 0 := by
          by_contra hge
          have hround := rounded_nonneg (not_lt.mp hge)
          rw [← hq, numeric, signed] at hround
          linarith
        rw [if_pos hneg]
        rfl
      | positive =>
        have hge : ¬ q < 0 := by
          intro hneg
          have hround := rounded_mono hneg.le
          rw [← hq, rounded_zero, numeric, signed] at hround
          linarith
        rw [if_neg hge]
        rfl

theorem canonical_neg {u : UnpackedFloat} (h : Canonical u) :
    Canonical u.neg ∧ numeric u.neg = -numeric u := by
  cases h with
  | zero s => exact ⟨.zero _, neg_zero.symm⟩
  | finite s m e h hm he hn =>
    refine ⟨.finite _ _ _ _ hm he hn, ?_⟩
    cases s
    · exact (neg_neg _).symm
    · rfl

theorem RoundedTo.neg (h : RoundedTo x q) : RoundedTo (-x) (-q) := by
  constructor
  · intro hlt
    rw [abs_neg] at hlt
    obtain ⟨hfinite, hvalue⟩ := h.finite hlt
    obtain ⟨hcanonical, hnumeric, -⟩ := canonical_unpack hfinite
    obtain ⟨hcanonical', hnumeric'⟩ := canonical_neg hcanonical
    rw [hnumeric, hvalue, ← rounded_neg] at hnumeric'
    exact (RoundedTo.of_pack hcanonical' hnumeric').finite (by rwa [abs_neg])
  · intro hle
    rw [abs_neg] at hle
    rw [h.infinite hle]
    have hq : q ≠ 0 := by
      rintro rfl
      rw [abs_zero] at hle
      exact absurd hle (by decide +kernel)
    rcases hq.lt_or_gt with hneg | hpos
    · rw [if_pos hneg, if_neg (by linarith)]
      rfl
    · rw [if_neg hpos.not_gt, if_pos (by linarith)]

/-- Doubles of rationals are rounded. -/
theorem roundedTo_ofRat (q : Rat) : RoundedTo (ofRat q) q := by
  wlog hq : 0 ≤ q
  · have hneg := (this (-q) (by linarith)).neg
    rw [neg_neg] at hneg
    have hnum : q.num < 0 := Rat.num_neg.mpr (not_le.mp hq)
    have hnum' : ¬ (-q).num < 0 := by
      rw [Rat.num_neg]
      linarith
    have hofRat : ofRat q = -ofRat (-q) := by
      simp only [ofRat, Rat.num_neg_eq_neg_num, Rat.den_neg_eq_den, Int.natAbs_neg] at hnum' ⊢
      rw [if_pos hnum, if_neg hnum']
    rwa [hofRat]
  have hnum : ¬ q.num < 0 := not_lt.mpr (Rat.num_nonneg.mpr hq)
  have hofRat : ofRat q = (nearest q.num.natAbs q.den).toFloat := by
    simp only [ofRat, hnum, if_false]
  have hgrid := onGrid_nearest q.num.natAbs q.den_pos
  rw [hofRat]
  constructor
  · intro hlt
    have hsmall := tooLarge_eq_false hlt
    refine ⟨isFinite_of_isMagnitude (isMagnitude_toFloat hgrid hsmall), ?_⟩
    rw [value_toFloat hgrid hsmall, rounded_of_nonneg hq]
  · intro hle
    rw [Scaled.toFloat, if_pos ((tooLarge_iff q).mpr hle), if_neg (not_lt.mpr hq)]

end Rounding

section Order
variable {x y : Float}

/-- A larger exponent makes a larger number: all its mantissas have 53 bits. -/
theorem magnitude_lt {m₁ m₂ : Nat} {e₁ e₂ : Int} (hm₁ : m₁ < 2 ^ 53) (he₁ : -1074 ≤ e₁)
    (hn₂ : e₂ = -1074 ∨ 2 ^ 52 ≤ m₂) (he : e₁ < e₂) : (m₁ : Rat) * 2 ^ e₁ < m₂ * 2 ^ e₂ := by
  have hwide : 2 ^ 52 ≤ m₂ := by omega
  calc (m₁ : Rat) * 2 ^ e₁ < 2 ^ 53 * 2 ^ e₁ := by
        gcongr
        exact_mod_cast hm₁
    _ = 2 ^ 52 * 2 ^ (e₁ + 1) := by
        rw [zpow_add_one₀ two_ne_zero]
        ring
    _ ≤ m₂ * 2 ^ e₂ := by
        gcongr
        · exact_mod_cast hwide
        · exact one_le_two
        · omega

theorem compare_magnitude {m₁ m₂ : Nat} {e₁ e₂ : Int} (hm₁ : m₁ < 2 ^ 53) (hm₂ : m₂ < 2 ^ 53)
    (he₁ : -1074 ≤ e₁) (he₂ : -1074 ≤ e₂) (hn₁ : e₁ = -1074 ∨ 2 ^ 52 ≤ m₁)
    (hn₂ : e₂ = -1074 ∨ 2 ^ 52 ≤ m₂) :
    (compare e₁ e₂).then (compare m₁ m₂) = cmp ((m₁ : Rat) * 2 ^ e₁) (m₂ * 2 ^ e₂) := by
  rcases lt_trichotomy e₁ e₂ with he | rfl | he
  · rw [compare_lt_iff_lt.mpr he, (cmp_eq_lt_iff _ _).mpr (magnitude_lt hm₁ he₁ hn₂ he)]
    rfl
  · rw [cmp_mul_pos_right (by positivity), compare_eq_iff_eq.mpr rfl, Ordering.eq_then,
      ← cmp_eq_compare]
    exact (Nat.strictMono_cast.cmp_map_eq m₁ m₂).symm
  · rw [compare_gt_iff_gt.mpr he, (cmp_eq_gt_iff _ _).mpr (magnitude_lt hm₂ he₂ hn₁ he)]
    rfl

/-- Doubles are compared as the numbers they are. -/
theorem compare_eq {u v : UnpackedFloat} (hu : Canonical u) (hv : Canonical v) :
    u.compare v = some (cmp (numeric u) (numeric v)) := by
  cases hu with
  | zero s =>
    cases hv with
    | zero t => rfl
    | finite t m' e' h' =>
      have hpos : (0 : Rat) < m' * 2 ^ e' := by positivity
      cases t with
      | negative => exact congrArg some ((cmp_eq_gt_iff _ _).mpr (neg_neg_of_pos hpos)).symm
      | positive => exact congrArg some ((cmp_eq_lt_iff _ _).mpr hpos).symm
  | finite s m e h hm he hn =>
    have hpos : (0 : Rat) < m * 2 ^ e := by positivity
    cases hv with
    | zero t =>
      cases s with
      | negative => exact congrArg some ((cmp_eq_lt_iff _ _).mpr (neg_neg_of_pos hpos)).symm
      | positive => exact congrArg some ((cmp_eq_gt_iff _ _).mpr hpos).symm
    | finite t m' e' h' hm' he' hn' =>
      have hpos' : (0 : Rat) < m' * 2 ^ e' := by positivity
      have hcompare := compare_magnitude hm hm' he he' hn hn'
      cases s <;> cases t
      · have hanti : StrictAnti (fun q : Rat => -q) := fun _ _ h => neg_lt_neg h
        refine congrArg some ?_
        rw [hcompare, cmp_swap]
        exact (hanti.cmp_map_eq _ _).symm
      · exact congrArg some ((cmp_eq_lt_iff _ _).mpr ((neg_neg_of_pos hpos).trans hpos')).symm
      · exact congrArg some ((cmp_eq_gt_iff _ _).mpr ((neg_neg_of_pos hpos').trans hpos)).symm
      · exact congrArg some hcompare

/-- The order of finite doubles is that of their values. -/
theorem lt_iff (hx : isFinite x = true) (hy : isFinite y = true) : x < y ↔ value x < value y := by
  obtain ⟨hcx, hnx, -⟩ := canonical_unpack hx
  obtain ⟨hcy, hny, -⟩ := canonical_unpack hy
  have hlt : x < y ↔
      decide ((x.toModel.unpack.compare y.toModel.unpack == some .lt) = true) = true := Iff.rfl
  rw [hlt, compare_eq hcx hcy, hnx, hny, decide_eq_true_iff, beq_iff_eq, Option.some.injEq,
    cmp_eq_lt_iff]

theorem beq_iff (hx : isFinite x = true) (hy : isFinite y = true) :
    (x == y) = true ↔ value x = value y := by
  obtain ⟨hcx, hnx, -⟩ := canonical_unpack hx
  obtain ⟨hcy, hny, -⟩ := canonical_unpack hy
  have heq : (x == y) = (x.toModel.unpack.compare y.toModel.unpack == some .eq) := rfl
  rw [heq, compare_eq hcx hcy, hnx, hny, beq_iff_eq, Option.some.injEq, cmp_eq_eq_iff]

end Order

end Reckoner.Double
