import Mathlib
import Reckoner.Proofs.Double.Unpacked

namespace Reckoner.Double
open Float.Model (UnpackedFloat Format)
open Float.Model.UnpackedFloat (Sign ExtendedMantissa Accuracy)

section Mantissa
variable {n d : Nat} {em : ExtendedMantissa}

/-- A mantissa and its extra bits that come from cutting the quotient `n / d`. Two bits are enough
to round it as a whole. -/
structure CutFrom (em : ExtendedMantissa) (n d : Nat) : Prop where
  mantissa : em.mantissa = n / d
  roundBit : em.roundBit = true ↔ d ≤ 2 * (n % d)
  stickyBit : em.stickyBit = true ↔ 2 * (n % d) ≠ 0 ∧ 2 * (n % d) ≠ d

theorem CutFrom.shiftRightOne (hd : 0 < d) (h : CutFrom em n d) :
    CutFrom em.shiftRightOne n (d * 2) := by
  have hrest : n % (d * 2) = n % d + d * (n / d % 2) := Nat.mod_mul
  have hlt := Nat.mod_lt n hd
  have hbit : n / d % 2 = 0 ∨ n / d % 2 = 1 := by omega
  refine ⟨?_, ?_, ?_⟩
  · simp only [ExtendedMantissa.shiftRightOne, h.mantissa, Nat.div_div_eq_div_mul]
  · simp only [ExtendedMantissa.shiftRightOne, h.mantissa, bne_iff_ne, hrest]
    rcases hbit with hbit | hbit <;> rw [hbit] <;> omega
  · simp only [ExtendedMantissa.shiftRightOne, Bool.or_eq_true, h.roundBit, h.stickyBit, hrest]
    rcases hbit with hbit | hbit <;> rw [hbit] <;> omega

/-- More bits may be cut off later. -/
theorem CutFrom.shiftRight (hd : 0 < d) (h : CutFrom em n d) (k : Nat) :
    CutFrom (em >>> k) n (d * 2 ^ k) := by
  induction k with
  | zero =>
    rw [pow_zero, mul_one]
    exact h
  | succ k ih =>
    rw [pow_succ, ← mul_assoc]
    exact ih.shiftRightOne (by positivity)

/-- The extra bits tell how the quotient is rounded. -/
theorem CutFrom.roundedMantissa (hd : 0 < d) (h : CutFrom em n d) :
    em.roundedMantissa = roundDiv n d := by
  obtain ⟨m, r, s⟩ := em
  obtain ⟨hm, hr, hs⟩ := h
  simp only at hm hr hs
  subst hm
  have hlt := Nat.mod_lt n hd
  simp only [roundDiv, Bool.or_eq_true, decide_eq_true_eq, Bool.and_eq_true, beq_iff_eq]
  cases r with
  | false =>
    have hbelow : 2 * (n % d) < d := not_le.mp (fun hle => Bool.false_ne_true (hr.mpr hle))
    rw [if_pos (.inl hbelow)]
    cases s <;> rfl
  | true =>
    have hle := hr.mp rfl
    cases s with
    | false =>
      have htie : 2 * (n % d) = d := by
        by_contra hne
        exact Bool.false_ne_true (hs.mpr ⟨by omega, hne⟩)
      show n / d + n / d % 2 = _
      split <;> omega
    | true =>
      have habove := (hs.mp rfl).2
      rw [if_neg (by omega)]
      rfl

theorem cutFrom_exact (m : Nat) : CutFrom (.ofMantissaAndAccuracy m .exact) m 1 :=
  ⟨(Nat.div_one m).symm, by simp [ExtendedMantissa.ofMantissaAndAccuracy, Nat.mod_one],
    by simp [ExtendedMantissa.ofMantissaAndAccuracy, Nat.mod_one]⟩

theorem cutFrom_fraction (n : Nat) (hd : 0 < d) :
    CutFrom (.ofMantissaAndAccuracy (n / d) (UnpackedFloat.accuracyOfFraction (n % d) d)) n d := by
  have hlt := Nat.mod_lt n hd
  unfold UnpackedFloat.accuracyOfFraction
  split
  · refine ⟨rfl, ?_, ?_⟩ <;> simp [ExtendedMantissa.ofMantissaAndAccuracy] <;> omega
  · rcases lt_trichotomy (2 * (n % d)) d with h | h | h
    · rw [compare_lt_iff_lt.mpr h]
      refine ⟨rfl, ?_, ?_⟩ <;> simp [ExtendedMantissa.ofMantissaAndAccuracy] <;> omega
    · rw [compare_eq_iff_eq.mpr h]
      refine ⟨rfl, ?_, ?_⟩ <;> simp [ExtendedMantissa.ofMantissaAndAccuracy] <;> omega
    · rw [compare_gt_iff_gt.mpr h]
      refine ⟨rfl, ?_, ?_⟩ <;> simp [ExtendedMantissa.ofMantissaAndAccuracy] <;> omega

end Mantissa

section Round
variable {n d m : Nat} {e g : Int} {s : Sign}

theorem targetExponent_eq (m : Nat) (e : Int) :
    Format.binary64.targetExponent (Float.Model.totalExponent m e) =
      max (m.log2 + e - 52) (-1074) := by
  have hbits : Format.binary64.mantissaBits = 53 := by decide
  have hmin : Format.binary64.minExponent = -1074 := by decide
  rw [Format.targetExponent, Float.Model.totalExponent, hbits, hmin]
  congr 1
  push_cast
  ring

/-- A rounded mantissa may have one bit too many. It is even then. -/
theorem canonical_shifted (hm : m ≤ 2 ^ 53) (hg : -1074 ≤ g) (hn : g = -1074 ∨ 2 ^ 52 ≤ m) :
    ∃ em e', UnpackedFloat.shiftToTargetExponent .binary64 m g .exact = (em, e') ∧
      em.mantissa < 2 ^ 53 ∧ -1074 ≤ e' ∧ (e' = -1074 ∨ 2 ^ 52 ≤ em.mantissa) ∧
      (em.mantissa : Rat) * 2 ^ e' = m * 2 ^ g := by
  rw [UnpackedFloat.shiftToTargetExponent, targetExponent_eq, UnpackedFloat.shiftToExponent]
  refine ⟨_, _, rfl, ?_⟩
  rcases hm.lt_or_eq with hlt | rfl
  · have hlog : m.log2 ≤ 52 := by
      rcases m.eq_zero_or_pos with rfl | hpos
      · decide
      · exact Nat.le_of_lt_succ ((Nat.log2_lt hpos.ne').mpr hlt)
    have hshift : (max ((m.log2 : Int) + g - 52) (-1074) - g).toNat = 0 := by omega
    rw [hshift, Nat.cast_zero, add_zero]
    exact ⟨hlt, hg, hn, rfl⟩
  · have hlog : (2 ^ 53).log2 = 53 := Nat.log2_two_pow
    have hshift : (max (((2 ^ 53).log2 : Int) + g - 52) (-1074) - g).toNat = 1 := by
      rw [hlog]
      omega
    rw [hshift, Nat.cast_one]
    have hhalf : (ExtendedMantissa.ofMantissaAndAccuracy (2 ^ 53) .exact >>> 1).mantissa = 2 ^ 52 :=
      rfl
    rw [hhalf]
    refine ⟨by decide, by omega, .inr le_rfl, ?_⟩
    rw [zpow_add_one₀ two_ne_zero]
    push_cast
    ring

theorem rounded_signed (s : Sign) (q : Rat) : rounded (signed s q) = signed s (rounded q) := by
  cases s
  · exact rounded_neg q
  · rfl

/-- The bits that a number has too many are counted: without them it is less than `2 ^ 53` units of
its grid, and not less than `2 ^ 52` unless the grid is the finest. -/
theorem exists_grid (hd : 0 < d) (h : e ≤ -1074 ∨ 2 ^ 52 * d ≤ n) :
    ∃ k : Nat, max (((n / d).log2 : Int) + e - 52) (-1074) = e + k ∧ n < 2 ^ 53 * (d * 2 ^ k) ∧
      (e + k = -1074 ∨ 2 ^ 52 * (d * 2 ^ k) ≤ n) := by
  generalize hg : max (((n / d).log2 : Int) + e - 52) (-1074) = g
  have hwide : e ≤ -1074 ∨ 52 ≤ (n / d).log2 := by
    refine h.imp_right fun hle => ?_
    have hle' : 2 ^ 52 ≤ n / d := (Nat.le_div_iff_mul_le hd).mpr hle
    exact (Nat.le_log2 (by omega)).mpr hle'
  obtain ⟨k, hk⟩ : ∃ k : Nat, g = e + k := ⟨(g - e).toNat, by omega⟩
  refine ⟨k, hk, ?_, ?_⟩
  · calc n < d * (n / d + 1) := Nat.lt_mul_div_succ n hd
      _ ≤ d * 2 ^ ((n / d).log2 + 1) := by
          gcongr
          exact Nat.lt_log2_self
      _ ≤ d * 2 ^ (53 + k) := Nat.mul_le_mul_left d (Nat.pow_le_pow_right two_pos (by omega))
      _ = 2 ^ 53 * (d * 2 ^ k) := by ring
  · by_cases hfinest : e + k = -1074
    · exact .inl hfinest
    · right
      have hlog : (n / d).log2 = 52 + k := by omega
      have hne : n / d ≠ 0 := by
        intro hzero
        have : Nat.log2 0 = 0 := by decide
        rw [hzero] at hlog
        omega
      calc 2 ^ 52 * (d * 2 ^ k) = d * 2 ^ (n / d).log2 := by rw [hlog]; ring
        _ ≤ d * (n / d) := by
            gcongr
            exact Nat.log2_self_le hne
        _ ≤ n := Nat.mul_div_le n d

theorem roundWithAccuracy_eq {acc : Accuracy} {em em' : ExtendedMantissa} {e' : Int} (s : Sign)
    (h : UnpackedFloat.shiftToTargetExponent .binary64 m e acc = (em, g))
    (h' : UnpackedFloat.shiftToTargetExponent .binary64 em.roundedMantissa g .exact = (em', e')) :
    UnpackedFloat.roundWithAccuracy .binary64 s m e acc =
      if h : em'.mantissa = 0 then .zero s
      else .finite s em'.mantissa e' (Nat.pos_of_ne_zero h) := by
  simp only [UnpackedFloat.roundWithAccuracy, h, h']

/-- A number that is given with more bits than a double has, and is cut after them, is rounded as if
it were given in full. -/
theorem roundWithAccuracy_spec {acc : Accuracy} (s : Sign) (hd : 0 < d)
    (hcut : CutFrom (.ofMantissaAndAccuracy (n / d) acc) n d) (h : e ≤ -1074 ∨ 2 ^ 52 * d ≤ n) :
    Canonical (UnpackedFloat.roundWithAccuracy .binary64 s (n / d) e acc) ∧
      numeric (UnpackedFloat.roundWithAccuracy .binary64 s (n / d) e acc) =
        rounded (signed s (n / d * 2 ^ e)) := by
  obtain ⟨k, hk, hbelow, habove⟩ := exists_grid hd h
  have hd' : 0 < d * 2 ^ k := by positivity
  have hshift : UnpackedFloat.shiftToTargetExponent .binary64 (n / d) e acc =
      (ExtendedMantissa.ofMantissaAndAccuracy (n / d) acc >>> k, e + k) := by
    have hk' : (e + k - e).toNat = k := by omega
    simp only [UnpackedFloat.shiftToTargetExponent, targetExponent_eq, hk,
      UnpackedFloat.shiftToExponent, hk']
  have hcut' := hcut.shiftRight hd k
  have hvalue : (n : Rat) / d * 2 ^ e = n / (d * 2 ^ k : Nat) * 2 ^ (e + k) := by
    rw [zpow_add₀ two_ne_zero, zpow_natCast]
    push_cast
    field_simp
  have hle : roundDiv n (d * 2 ^ k) ≤ 2 ^ 53 := by
    rw [← roundDiv_mul_self (2 ^ 53) hd']
    exact roundDiv_mono hd' hd' (Nat.mul_le_mul_right _ hbelow.le)
  have hge : e + k = -1074 ∨ 2 ^ 52 ≤ roundDiv n (d * 2 ^ k) := by
    refine habove.imp_right fun hle => ?_
    rw [← roundDiv_mul_self (2 ^ 52) hd']
    exact roundDiv_mono hd' hd' (Nat.mul_le_mul_right _ hle)
  have hround := rounded_of_grid hd' hbelow (by omega) habove
  rw [← hcut'.roundedMantissa hd'] at hle hge hround
  obtain ⟨em, e', hfinal, hem, he', hnormal, hsame⟩ := canonical_shifted hle (by omega) hge
  rw [rounded_signed, hvalue, hround, ← hsame, roundWithAccuracy_eq s hshift hfinal]
  split
  · rename_i hzero
    refine ⟨.zero s, ?_⟩
    rw [hzero, Nat.cast_zero, zero_mul]
    cases s <;> simp [numeric, signed]
  · exact ⟨.finite _ _ _ _ hem he' hnormal, rfl⟩

theorem exact_spec (s : Sign) (h : e ≤ -1074 ∨ 2 ^ 52 ≤ m) :
    Canonical (UnpackedFloat.roundWithAccuracy .binary64 s m e .exact) ∧
      numeric (UnpackedFloat.roundWithAccuracy .binary64 s m e .exact) =
        rounded (signed s (m * 2 ^ e)) := by
  have hcut : CutFrom (.ofMantissaAndAccuracy (m / 1) .exact) m 1 := by
    rw [Nat.div_one]
    exact cutFrom_exact m
  have hspec := roundWithAccuracy_spec (e := e) s one_pos hcut (by rwa [mul_one])
  rwa [Nat.div_one, Nat.cast_one, div_one] at hspec

/-- A finer grid does not change the number. -/
theorem decreaseExponent_value (m : Nat) (e t : Int) :
    ((UnpackedFloat.decreaseExponent m e t).1 : Rat) *
      2 ^ (UnpackedFloat.decreaseExponent m e t).2 = m * 2 ^ e := by
  simp only [UnpackedFloat.decreaseExponent, Nat.shiftLeft_eq]
  rw [zpow_sub₀ two_ne_zero, zpow_natCast]
  push_cast
  field_simp

/-- A magnitude is rounded once, whatever its bits are. -/
theorem round_spec (s : Sign) (hm : 0 < m) (e : Int) :
    Canonical (UnpackedFloat.round .binary64 s m e) ∧
      numeric (UnpackedFloat.round .binary64 s m e) = rounded (signed s (m * 2 ^ e)) := by
  have hvalue := decreaseExponent_value m e (max (m.log2 + e - 52) (-1074))
  rw [UnpackedFloat.round, targetExponent_eq, ← hvalue]
  apply exact_spec
  -- Zeros are added below until there are 53 bits or the grid is the finest.
  simp only [Nat.shiftLeft_eq]
  generalize hk : (e - max ((m.log2 : Int) + e - 52) (-1074)).toNat = k
  by_cases hfinest : e - k ≤ -1074
  · exact .inl hfinest
  · right
    calc 2 ^ 52 ≤ 2 ^ (m.log2 + k) := Nat.pow_le_pow_right two_pos (by omega)
      _ = 2 ^ m.log2 * 2 ^ k := pow_add _ _ _
      _ ≤ m * 2 ^ k := by
          gcongr
          exact Nat.log2_self_le hm.ne'

theorem normalize_spec (m e : Int) (s : Sign) :
    Canonical (UnpackedFloat.normalize .binary64 m e s) ∧
      numeric (UnpackedFloat.normalize .binary64 m e s) = rounded (m * 2 ^ e) := by
  rw [UnpackedFloat.normalize]
  rcases lt_trichotomy m 0 with hneg | rfl | hpos
  · obtain ⟨k, rfl⟩ : ∃ k : Nat, m = -k := ⟨(-m).toNat, by omega⟩
    rw [compare_lt_iff_lt.mpr hneg, neg_neg, Int.toNat_natCast]
    have hspec := round_spec .negative (m := k) (by omega) e
    simpa [signed] using hspec
  · refine ⟨.zero s, ?_⟩
    simp [numeric]
  · obtain ⟨k, rfl⟩ := Int.eq_ofNat_of_zero_le hpos.le
    rw [compare_gt_iff_gt.mpr hpos]
    have hspec := round_spec .positive (m := k) (by omega) e
    simpa [signed] using hspec

end Round

section Operations
variable {u v : UnpackedFloat} {x y : Float}

theorem Canonical.rounded_numeric (h : Canonical u) : rounded (numeric u) = numeric u := by
  cases h with
  | zero s => exact rounded_zero
  | finite s m e h hm he hn => exact Representable.rounded_eq ⟨m, e, hm, he, abs_numeric h⟩

theorem apply_decreaseExponent (s : Sign) (m : Nat) {e t : Int} (h : t ≤ e) :
    ((s.apply (UnpackedFloat.decreaseExponent m e t).1 : Int) : Rat) * 2 ^ t =
      signed s (m * 2 ^ e) := by
  have hvalue := decreaseExponent_value m e t
  have hexponent : (UnpackedFloat.decreaseExponent m e t).2 = t := by
    simp only [UnpackedFloat.decreaseExponent]
    omega
  rw [hexponent] at hvalue
  cases s <;> simp [Sign.apply, signed, hvalue]

/-- Numbers are brought to the finer of their two grids, and added there exactly. -/
theorem add_spec (hu : Canonical u) (hv : Canonical v) :
    Canonical (UnpackedFloat.add .binary64 u v) ∧
      numeric (UnpackedFloat.add .binary64 u v) = rounded (numeric u + numeric v) := by
  cases hu with
  | zero s =>
    cases hv with
    | zero t =>
      have hsum : UnpackedFloat.add .binary64 (.zero s) (.zero t) =
          .zero (if s == t then s else .positive) := by
        cases s <;> cases t <;> rfl
      rw [hsum, numeric_zero, numeric_zero, numeric_zero, add_zero, rounded_zero]
      exact ⟨.zero _, rfl⟩
    | finite t m' e' h' hm' he' hn' =>
      have hv : Canonical (.finite t m' e' h') := .finite t m' e' h' hm' he' hn'
      refine ⟨hv, ?_⟩
      rw [numeric_zero, zero_add, hv.rounded_numeric]
      rfl
  | finite s m e h hm he hn =>
    cases hv with
    | zero t =>
      have hu : Canonical (.finite s m e h) := .finite s m e h hm he hn
      refine ⟨hu, ?_⟩
      rw [numeric_zero, add_zero, hu.rounded_numeric]
      rfl
    | finite t m' e' h' =>
      rw [numeric, numeric, ← apply_decreaseExponent s m (min_le_left e e'),
        ← apply_decreaseExponent t m' (min_le_right e e'), ← add_mul, ← Int.cast_add]
      exact normalize_spec _ _ _

theorem sub_eq_add (hu : Canonical u) (hv : Canonical v) :
    UnpackedFloat.sub .binary64 u v = UnpackedFloat.add .binary64 u v.neg := by
  cases hu with
  | zero s =>
    cases hv with
    | zero t => rfl
    | finite t => rfl
  | finite s m e h =>
    cases hv with
    | zero t => rfl
    | finite t m' e' h' =>
      have happly (k : Int) : (-t).apply k = -t.apply k := by
        cases t
        · exact (neg_neg k).symm
        · rfl
      simp only [UnpackedFloat.sub, UnpackedFloat.add, UnpackedFloat.neg, happly, sub_eq_add_neg]

theorem signed_mul (s t : Sign) (p q : Rat) : signed (s * t) (p * q) = signed s p * signed t q := by
  cases s <;> cases t
  · exact (neg_mul_neg p q).symm
  · exact (neg_mul p q).symm
  · exact (mul_neg p q).symm
  · rfl

theorem signed_div (s t : Sign) (p q : Rat) : signed (s / t) (p / q) = signed s p / signed t q := by
  cases s <;> cases t
  · exact (neg_div_neg_eq p q).symm
  · exact (neg_div q p).symm
  · exact (div_neg p).symm
  · rfl

/-- The product of two mantissas is exact before it is rounded. -/
theorem mul_spec (hu : Canonical u) (hv : Canonical v) :
    Canonical (UnpackedFloat.mul .binary64 u v) ∧
      numeric (UnpackedFloat.mul .binary64 u v) = rounded (numeric u * numeric v) := by
  cases hu with
  | zero s =>
    refine ⟨?_, ?_⟩
    · cases hv <;> exact .zero _
    · rw [numeric_zero, zero_mul, rounded_zero]
      cases hv <;> rfl
  | finite s m e h hm he hn =>
    cases hv with
    | zero t =>
      refine ⟨.zero _, ?_⟩
      rw [numeric_zero, mul_zero, rounded_zero]
      rfl
    | finite t m' e' h' hm' he' hn' =>
      have hvalue : numeric (.finite s m e h) * numeric (.finite t m' e' h') =
          signed (s * t) ((m * m' : Nat) * 2 ^ (e + e')) := by
        rw [numeric, numeric, ← signed_mul, zpow_add₀ two_ne_zero]
        push_cast
        congr 1
        ring
      rw [hvalue]
      apply exact_spec
      by_cases hfine : e = -1074 ∧ e' = -1074
      · exact .inl (by omega)
      · right
        rcases (by omega : 2 ^ 52 ≤ m ∨ 2 ^ 52 ≤ m') with hwide | hwide
        · exact hwide.trans (Nat.le_mul_of_pos_right m h')
        · exact hwide.trans (Nat.le_mul_of_pos_left m' h)

/-- A quotient is computed with enough bits. -/
theorem divCore_spec {m m' : Nat} (e e' : Int) (h : 0 < m) (h' : 0 < m') (hm : m < 2 ^ 53) :
    ∃ (n : Nat) (t : Int), UnpackedFloat.divCore .binary64 m e m' e' =
        (n / m', t, UnpackedFloat.accuracyOfFraction (n % m') m') ∧
      (n : Rat) / m' * 2 ^ t = m * 2 ^ e / (m' * 2 ^ e') ∧ (t ≤ -1074 ∨ 2 ^ 52 * m' ≤ n) := by
  have htarget : Format.binary64.targetExponent
      (Float.Model.totalExponent m e - Float.Model.totalExponent m' e') =
        max ((m.log2 : Int) - m'.log2 + (e - e') - 53) (-1074) := by
    have hbits : Format.binary64.mantissaBits = 53 := by decide
    have hmin : Format.binary64.minExponent = -1074 := by decide
    rw [Format.targetExponent, Float.Model.totalExponent, Float.Model.totalExponent, hbits, hmin]
    congr 1
    push_cast
    ring
  have hlog : m.log2 < 53 := (Nat.log2_lt h.ne').mpr hm
  obtain ⟨k, hk⟩ : ∃ k : Nat,
      min (e - e') (max ((m.log2 : Int) - m'.log2 + (e - e') - 53) (-1074)) = e - e' - k :=
    ⟨(e - e' - min (e - e') (max ((m.log2 : Int) - m'.log2 + (e - e') - 53) (-1074))).toNat,
      by omega⟩
  have hk' : (e - e' - (e - e' - k)).toNat = k := by omega
  refine ⟨m * 2 ^ k, e - e' - k, ?_, ?_, ?_⟩
  · simp only [UnpackedFloat.divCore, htarget, hk, hk', Nat.shiftLeft_eq]
  · rw [zpow_sub₀ two_ne_zero, zpow_sub₀ two_ne_zero, zpow_natCast]
    push_cast
    field_simp
  · by_cases hfinest : e - e' - k ≤ -1074
    · exact .inl hfinest
    · right
      calc 2 ^ 52 * m' ≤ 2 ^ 52 * 2 ^ (m'.log2 + 1) := by
            gcongr
            exact Nat.lt_log2_self.le
        _ = 2 ^ (m.log2 + k) := by
            rw [← pow_add]
            congr 1
            omega
        _ = 2 ^ m.log2 * 2 ^ k := pow_add _ _ _
        _ ≤ m * 2 ^ k := by
            gcongr
            exact Nat.log2_self_le h.ne'

theorem div_spec (hu : Canonical u) (hv : Canonical v) (hne : numeric v ≠ 0) :
    Canonical (UnpackedFloat.div .binary64 u v) ∧
      numeric (UnpackedFloat.div .binary64 u v) = rounded (numeric u / numeric v) := by
  cases hv with
  | zero t => exact absurd rfl hne
  | finite t m' e' h' hm' he' hn' =>
    cases hu with
    | zero s =>
      refine ⟨.zero _, ?_⟩
      rw [numeric_zero, zero_div, rounded_zero]
      rfl
    | finite s m e h hm he hn =>
      obtain ⟨n, k, hcore, hvalue, hwide⟩ := divCore_spec e e' h h' hm
      rw [numeric, numeric, ← signed_div, ← hvalue]
      simp only [UnpackedFloat.div, hcore]
      exact roundWithAccuracy_spec _ h' (cutFrom_fraction n h') hwide

/-- A sum is rounded once. -/
theorem roundedTo_add (hx : isFinite x = true) (hy : isFinite y = true) :
    RoundedTo (x + y) (value x + value y) := by
  obtain ⟨hcx, hnx, -⟩ := canonical_unpack hx
  obtain ⟨hcy, hny, -⟩ := canonical_unpack hy
  obtain ⟨hcanonical, hnumeric⟩ := add_spec hcx hcy
  rw [hnx, hny] at hnumeric
  exact .of_pack hcanonical hnumeric

theorem roundedTo_sub (hx : isFinite x = true) (hy : isFinite y = true) :
    RoundedTo (x - y) (value x - value y) := by
  obtain ⟨hcx, hnx, -⟩ := canonical_unpack hx
  obtain ⟨hcy, hny, -⟩ := canonical_unpack hy
  obtain ⟨hneg, hnumneg⟩ := canonical_neg hcy
  obtain ⟨hcanonical, hnumeric⟩ := add_spec hcx hneg
  rw [hnx, hnumneg, hny, ← sub_eq_add_neg] at hnumeric
  rw [← sub_eq_add hcx hcy] at hcanonical hnumeric
  exact .of_pack hcanonical hnumeric

/-- A product is rounded once. -/
theorem roundedTo_mul (hx : isFinite x = true) (hy : isFinite y = true) :
    RoundedTo (x * y) (value x * value y) := by
  obtain ⟨hcx, hnx, -⟩ := canonical_unpack hx
  obtain ⟨hcy, hny, -⟩ := canonical_unpack hy
  obtain ⟨hcanonical, hnumeric⟩ := mul_spec hcx hcy
  rw [hnx, hny] at hnumeric
  exact .of_pack hcanonical hnumeric

/-- A quotient is rounded once. -/
theorem roundedTo_div (hx : isFinite x = true) (hy : isFinite y = true) (hne : value y ≠ 0) :
    RoundedTo (x / y) (value x / value y) := by
  obtain ⟨hcx, hnx, -⟩ := canonical_unpack hx
  obtain ⟨hcy, hny, -⟩ := canonical_unpack hy
  obtain ⟨hcanonical, hnumeric⟩ := div_spec hcx hcy (hny.symm ▸ hne)
  rw [hnx, hny] at hnumeric
  exact .of_pack hcanonical hnumeric

/-- What lies between two doubles is rounded to a double between them. -/
theorem RoundedTo.between {a b q : Rat} (h : RoundedTo x q) (ha : Representable a)
    (hb : Representable b) (hlow : -limit < a) (hhigh : b < limit) (haq : a ≤ q) (hqb : q ≤ b) :
    isFinite x = true ∧ a ≤ value x ∧ value x ≤ b := by
  obtain ⟨hfinite, hvalue⟩ := h.finite (abs_lt.mpr ⟨by linarith, by linarith⟩)
  rw [hvalue]
  refine ⟨hfinite, ?_, ?_⟩
  · rw [← ha.rounded_eq]
    exact rounded_mono haq
  · rw [← hb.rounded_eq]
    exact rounded_mono hqb

theorem unpacked_div_infinity (hu : Canonical u) :
    ∃ s, UnpackedFloat.div .binary64 u (.infinity .positive) = .zero s := by
  cases hu with
  | zero s => exact ⟨_, rfl⟩
  | finite s => exact ⟨_, rfl⟩

/-- Divided by infinity a double is zero. -/
theorem div_infinity (hx : isFinite x = true) :
    isFinite (x / infinity) = true ∧ value (x / infinity) = 0 := by
  obtain ⟨hcx, -, -⟩ := canonical_unpack hx
  obtain ⟨s, hs⟩ := unpacked_div_infinity hcx
  have hpack : x / infinity = Float.ofModel (Float.Model.pack (.zero s)) :=
    congrArg (fun u => Float.ofModel (Float.Model.pack u)) hs
  have hround : RoundedTo (x / infinity) 0 := by
    rw [hpack]
    exact .of_pack (.zero s) rounded_zero.symm
  obtain ⟨hfinite, hvalue⟩ := hround.finite (by decide +kernel)
  exact ⟨hfinite, hvalue.trans rounded_zero⟩

end Operations

end Reckoner.Double
