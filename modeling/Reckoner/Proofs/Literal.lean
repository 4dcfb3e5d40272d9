import Reckoner.Rational.Read

namespace Reckoner

namespace Text

/-- Every digit stands at most nine places above the zero of its script. -/
theorem zero_of_isDigit {c : Char} (h : isDigit c = true) :
    ∃ z ∈ zeros, z ≤ c.toNat ∧ c.toNat ≤ z + 9 := by
  simp only [isDigit, digit?] at h
  split at h
  · split at h
    · rename_i hb
      simp only [Bool.and_eq_true, decide_eq_true_eq] at hb
      exact ⟨0x30, by decide, hb.1, by omega⟩
    · simp at h
  · simp only [Option.isSome_map] at h
    obtain ⟨z, hz⟩ := Option.isSome_iff_exists.mp h
    have hb := List.find?_some hz
    simp only [Bool.and_eq_true, decide_eq_true_eq] at hb
    exact ⟨z, List.mem_of_find?_eq_some hz, hb⟩

/-- A property of code points that holds of the ten digits of every script holds of every digit. -/
theorem forall_digit {p : Nat → Bool} (h : ∀ z ∈ zeros, ∀ k < 10, p (z + k) = true) {c : Char}
    (hc : isDigit c = true) : p c.toNat = true := by
  obtain ⟨z, hz, hl, hu⟩ := zero_of_isDigit hc
  have hk := h z hz (c.toNat - z) (by omega)
  rwa [Nat.add_sub_cancel' hl] at hk

theorem isBlank_of_isDigit {c : Char} (h : isDigit c = true) : isBlank c = false := by
  have hb := forall_digit (p := fun n => !isBlankCode n) (by decide +kernel) h
  rw [isBlank]
  simpa using hb

/-- A text without blanks at its ends is its own trimming. -/
theorem trimChars_of_no_blank {cs : List Char} (h : ∀ c ∈ cs, isBlank c = false) :
    trimChars cs = cs := by
  have keep : ∀ ds : List Char, (∀ c ∈ ds, isBlank c = false) → dropBlanks ds = ds := by
    intro ds hd
    cases ds with
    | nil => rfl
    | cons d ds => simp [dropBlanks, hd d List.mem_cons_self]
  rw [trimChars, keep cs h, keep cs.reverse (by simpa using h), List.reverse_reverse]

end Text

namespace Numeral
open Text

structure IsLiteral (t : String) : Prop where
  ne_nil : t.toList ≠ []
  digits : ∀ c ∈ t.toList, isDigit c = true

def digitsOf (t : String) : List Nat :=
  t.toList.filterMap digit?

/-- The number that the digits of a numeral spell. -/
def literalValue (t : String) : Nat :=
  digitsValue (digitsOf t)

def Readable (t : String) : Prop :=
  (digitsOf t).length ≤ 4300

instance (t : String) : Decidable (Readable t) :=
  inferInstanceAs (Decidable (_ ≤ _))

/-- All characters of a literal are taken for digits, and nothing is left. -/
theorem takeDigits_of_digits {cs : List Char} (h : ∀ c ∈ cs, isDigit c = true) :
    takeDigits cs = (cs.filterMap digit?, []) := by
  fun_induction takeDigits cs with
  | case1 => rfl
  | case2 c cs hc => simp [isDigit, hc] at h
  | case3 => exact absurd (h '_' (by simp)) (by decide)
  | case4 => exact absurd (h '_' (by simp)) (by decide)
  | case5 c d hd cs _ ds rest heq ih =>
    have hr := ih (fun e he => h e (List.mem_cons_of_mem c he))
    rw [heq] at hr
    simp only [Prod.mk.injEq] at hr
    simp [hd, hr.1, hr.2]

namespace IsLiteral
variable {t : String}

theorem trimChars (h : IsLiteral t) : trimChars t.toList = t.toList :=
  trimChars_of_no_blank (fun c hc => isBlank_of_isDigit (h.digits c hc))

theorem takeSign (h : IsLiteral t) : takeSign t.toList = (false, t.toList) := by
  unfold Numeral.takeSign
  split
  · rename_i cs he
    exact absurd (h.digits '-' (by simp [he])) (by decide)
  · rename_i cs he
    exact absurd (h.digits '+' (by simp [he])) (by decide)
  · rfl

theorem startsNumber (h : IsLiteral t) : startsNumber t.toList = true := by
  unfold Numeral.startsNumber
  split
  · rename_i c cs he
    exact h.digits c (by simp [he])
  · rename_i c cs _ he
    exact h.digits c (by simp [he])
  · rename_i he
    exact absurd he h.ne_nil

/-- As a fraction, a literal is a numerator with no places after a point. -/
theorem fraction? (h : IsLiteral t) :
    fraction? t = some ⟨false, digitsOf t, .decimal [] none⟩ := by
  simp [Numeral.fraction?, h.trimChars, h.takeSign, h.startsNumber,
    takeDigits_of_digits h.digits, takePlaces, takeExponent, digitsOf]

end IsLiteral
end Numeral

namespace Rational
open Numeral

/-- An integer has a small denominator already. -/
theorem settle_natCast (n : Nat) : settle (n : Rat) = n := by
  have hd : (n : Rat).den ≤ 1000000 := by simp
  rw [settle, approximate, if_pos hd]

/-- A literal is read as its value, and only its length can stand in the way. -/
theorem read_literal {t : String} (h : IsLiteral t) :
    read t = if Readable t then .ok (literalValue t : Rat)
      else .error (.readTooLong (digitsOf t).length) := by
  by_cases hr : Readable t
  · have hl : ¬ 4300 < (digitsOf t).length := Nat.not_lt.mpr hr
    have hv : ofDecimalParts false (literalValue t) 0 0 0 = (literalValue t : Rat) := by
      simp only [ofDecimalParts, Std.le_refl, if_true, signed, Bool.false_eq_true, if_false,
        Nat.pow_eq, Nat.pow_zero, Nat.mul_one, Nat.add_zero, Int.toNat_zero, Int.cast_ofNat_Int,
        Int.mul_one, Rat.mkRat_one, Rat.intCast_natCast]
    simp only [read, readExact, h.fraction?, readDigits, hl, hr, if_true, if_false]
    show Except.ok (settle (ofDecimalParts false (literalValue t) 0 0 0)) = _
    rw [hv, settle_natCast]
  · have hl : 4300 < (digitsOf t).length := Nat.not_le.mp hr
    simp only [read, readExact, h.fraction?, readDigits, hl, hr, if_true, if_false]
    rfl

end Rational
end Reckoner
