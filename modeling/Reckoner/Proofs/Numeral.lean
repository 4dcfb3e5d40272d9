import Mathlib
import Reckoner.Proofs.Double.Decimals
import Reckoner.Proofs.Lexing.Shape
import Reckoner.Proofs.Polynomial.Values
import Reckoner.Proofs.Recasing.Letters

namespace Reckoner

theorem digitsValue_concat (ds : List Nat) (d : Nat) :
    digitsValue (ds ++ [d]) = 10 * digitsValue ds + d := by
  simp [digitsValue]

/-- Digits in front count for more by as many places as follow. -/
theorem digitsValue_append (ds es : List Nat) :
    digitsValue (ds ++ es) = digitsValue ds * 10 ^ es.length + digitsValue es := by
  induction es using List.reverseRecOn with
  | nil => simp [digitsValue]
  | append_singleton es e ih =>
    rw [← List.append_assoc, digitsValue_concat, ih, digitsValue_concat, List.length_append,
      List.length_singleton, pow_succ]
    ring

namespace Numeral
open Text

/-- The digits before the point of a numeral, and those after it. -/
def wholeDigits (t : String) : List Nat :=
  (t.toList.takeWhile (· != '.')).filterMap digit?

def placeDigits (t : String) : List Nat :=
  (t.toList.dropWhile (· != '.')).filterMap digit?

/-- The number that a numeral spells. -/
def decimalValue (t : String) : Rat :=
  (digitsValue (wholeDigits t ++ placeDigits t) : Rat) / (10 ^ (placeDigits t).length : Nat)

def Short (t : String) : Prop :=
  (wholeDigits t).length ≤ 4300 ∧ (placeDigits t).length ≤ 4300

instance decidableShort (t : String) : Decidable (Short t) :=
  inferInstanceAs (Decidable (_ ∧ _))

section Reading
variable {t : String}

theorem takeDigits_cons {c : Char} {cs : List Char} {d : Nat} (hc : digit? c = some d)
    (hcs : cs.head? ≠ some '_') :
    takeDigits (c :: cs) = (d :: (takeDigits cs).1, (takeDigits cs).2) := by
  rw [takeDigits]
  simp only [hc]
  split
  · exact absurd rfl hcs
  · rfl

/-- The digits before a point are taken as far as the point. -/
theorem takeDigits_point {ds : List Char} (h : ∀ c ∈ ds, isDigit c = true) (r : List Char) :
    takeDigits (ds ++ '.' :: r) = (ds.filterMap digit?, '.' :: r) := by
  induction ds with
  | nil => simp [takeDigits, digit?]
  | cons c ds ih =>
    obtain ⟨hc, hds⟩ := List.forall_mem_cons.mp h
    obtain ⟨d, hd⟩ := Option.isSome_iff_exists.mp hc
    have hnext : (ds ++ '.' :: r).head? ≠ some '_' := by
      cases ds with
      | nil => simp
      | cons e ds =>
        intro he
        cases he
        exact absurd (hds '_' List.mem_cons_self) (by decide)
    rw [List.cons_append, takeDigits_cons hd hnext, ih hds, List.filterMap_cons_some hd]

theorem ne_point {cs : List Char} (h : ∀ c ∈ cs, isDigit c = true) :
    ∀ c ∈ cs, (c != '.') = true := by
  intro c hc
  rw [bne_iff_ne]
  rintro rfl
  cases (h '.' hc).symm.trans Token.not_isDigit_point

/-- A numeral is taken apart at its point. -/
theorem splits (ht : TokenKind.number.Fits t.toList) :
    ∃ rest, takeDigits t.toList = (wholeDigits t, rest) ∧ takePlaces rest = (placeDigits t, []) ∧
      (rest = [] ∧ '.' ∉ t.toList ∨ '.' ∈ t.toList ∧ ∃ r, rest = '.' :: r) := by
  obtain ⟨ds, fs, -, hdigits, hw⟩ := ht
  obtain ⟨hds, hfs⟩ := List.forall_mem_append.mp hdigits
  rcases hw with hw | hw
  · have hwhole : wholeDigits t = ds.filterMap digit? := by
      rw [wholeDigits, hw, List.takeWhile_eq_self_iff.mpr (ne_point hds)]
    have hplaces : placeDigits t = [] := by
      rw [placeDigits, hw, List.dropWhile_eq_nil_iff.mpr (ne_point hds), List.filterMap_nil]
    rw [hwhole, hplaces, hw, takeDigits_of_digits hds]
    refine ⟨[], rfl, rfl, .inl ⟨rfl, fun hmem => ?_⟩⟩
    cases (hds '.' hmem).symm.trans Token.not_isDigit_point
  · have hstop : ∀ c ∈ ('.' :: fs).head?, (c != '.') = false := by simp
    have hwhole : wholeDigits t = ds.filterMap digit? := by
      rw [wholeDigits, hw, Token.takeWhile_append_head (ne_point hds) hstop]
    have hplaces : placeDigits t = fs.filterMap digit? := by
      rw [placeDigits, hw, Token.dropWhile_append_head (ne_point hds) hstop]
      exact List.filterMap_cons_none (by decide)
    rw [hwhole, hplaces, hw, takeDigits_point hds]
    exact ⟨'.' :: fs, rfl, takeDigits_of_digits hfs, .inr ⟨by simp, fs, rfl⟩⟩

theorem takeSign_trim (ht : TokenKind.number.Fits t.toList) :
    takeSign (trimChars t.toList) = (false, t.toList) ∧ startsNumber t.toList = true := by
  obtain ⟨⟨c, cs, hcs, hc⟩, hall, -⟩ := ht.number
  have hblank : ∀ d ∈ t.toList, isBlank d = false := by
    intro d hd
    rcases hall d hd with hdigit | rfl
    · exact isBlank_of_isDigit hdigit
    · decide
  rw [trimChars_of_no_blank hblank, hcs]
  refine ⟨?_, startsNumber_of_isDigit hc cs⟩
  unfold takeSign
  split
  next he =>
    cases he
    exact absurd hc (by decide)
  next he =>
    cases he
    exact absurd hc (by decide)
  next => rfl

/-- A numeral is a fraction without a denominator or an exponent. -/
theorem fraction?_of_fits (ht : TokenKind.number.Fits t.toList) :
    fraction? t = some ⟨false, wholeDigits t, .decimal (placeDigits t) none⟩ := by
  obtain ⟨hsign, hstarts⟩ := takeSign_trim ht
  obtain ⟨rest, hdigits, hplaces, hrest⟩ := splits ht
  simp only [fraction?, hsign, hstarts, hdigits, Bool.not_true, Bool.false_eq_true, if_false]
  split
  next r he =>
    rcases hrest with ⟨he', -⟩ | ⟨-, r', he'⟩
    · cases he'
    · cases he'
  next => simp only [hplaces, takeExponent]

theorem decimal?_of_fits (ht : TokenKind.number.Fits t.toList) :
    decimal? t = some (.finite false (digitsValue (wholeDigits t ++ placeDigits t))
      (-(placeDigits t).length)) := by
  obtain ⟨hsign, hstarts⟩ := takeSign_trim ht
  obtain ⟨rest, hdigits, hplaces, -⟩ := splits ht
  obtain ⟨⟨c, cs, hcs, hc⟩, -⟩ := ht.number
  -- The words for what is not finite begin with letters.
  have hword {w : String} {d : Char} (hw : w.toList.head? = some d) (hd : isDigit d = false) :
      (String.ofList (t.toList.map Char.toLower) == w) = false := by
    rw [beq_eq_false_iff_ne]
    rintro rfl
    rw [String.toList_ofList, hcs, List.map_cons, List.head?_cons] at hw
    rw [← Option.some.inj hw, isDigit_toLower, hc] at hd
    cases hd
  have hinf := hword (w := "inf") (d := 'i') rfl (by decide)
  have hinfinity := hword (w := "infinity") (d := 'i') rfl (by decide)
  have hnan := hword (w := "nan") (d := 'n') rfl (by decide)
  simp only [decimal?, hsign, hinf, hinfinity, hnan, hstarts, hdigits, hplaces, takeExponent,
    Bool.or_self, Bool.not_true, Bool.false_eq_true, if_false, Option.map_none, Option.getD_none,
    zero_sub]

/-- Without a point a numeral spells an integer. -/
theorem integer?_of_fits (ht : TokenKind.number.Fits t.toList) (hpoint : '.' ∉ t.toList) :
    integer? t = some ⟨false, wholeDigits t⟩ ∧ placeDigits t = [] := by
  obtain ⟨hsign, -⟩ := takeSign_trim ht
  obtain ⟨rest, hdigits, hplaces, hrest⟩ := splits ht
  obtain ⟨rfl, -⟩ := hrest.resolve_right fun h => hpoint h.1
  obtain ⟨⟨c, cs, hcs, hc⟩, -⟩ := ht.number
  obtain ⟨d, hd⟩ := Option.isSome_iff_exists.mp hc
  have hne : c ≠ '.' := fun he => hpoint (by rw [hcs, he]; exact List.mem_cons_self)
  have hwhole : wholeDigits t = d :: (cs.takeWhile (· != '.')).filterMap digit? := by
    rw [wholeDigits, hcs, List.takeWhile_cons_of_pos (by simpa using hne),
      List.filterMap_cons_some hd]
  refine ⟨?_, (Prod.mk.inj hplaces).1.symm⟩
  simp only [integer?, hsign, hdigits, hwhole]

end Reading
end Numeral

namespace Rational
open Numeral Double
variable {t : String}

theorem toOption_map {ε α β : Type} (f : α → β) (x : Except ε α) :
    (f <$> x).toOption = x.toOption.map f := by
  cases x <;> rfl

/-- The exact reading puts both parts together again. -/
theorem ofDecimalParts_digits (t : String) :
    ofDecimalParts false (digitsValue (wholeDigits t)) (digitsValue (placeDigits t))
      (placeDigits t).length 0 = decimalValue t := by
  simp [ofDecimalParts, signed, decimalValue, digitsValue_append, Rat.mkRat_eq_div]

/-- In an equation a numeral is read exactly, and then its denominator is made small. -/
theorem read_of_fits (ht : TokenKind.number.Fits t.toList) :
    (read t).toOption = if Short t then some (settle (decimalValue t)) else none := by
  have hexact : (readExact t).toOption = if Short t then some (decimalValue t) else none := by
    simp only [readExact, fraction?_of_fits ht, readDigits]
    by_cases hwhole : 4300 < (wholeDigits t).length
    · have hlong : ¬ Short t := fun h => absurd h.1 (not_le.mpr hwhole)
      rw [if_pos hwhole, if_neg hlong]
      rfl
    by_cases hplaces : 4300 < (placeDigits t).length
    · have hlong : ¬ Short t := fun h => absurd h.2 (not_le.mpr hplaces)
      rw [if_neg hwhole, if_pos hplaces, if_neg hlong]
      rfl
    · have hshort : Short t := ⟨not_lt.mp hwhole, not_lt.mp hplaces⟩
      rw [if_neg hwhole, if_neg hplaces, if_pos hshort, ← ofDecimalParts_digits]
      rfl
  rw [read, toOption_map, hexact]
  split <;> rfl

/-- By itself a numeral with a point becomes the nearest double first. -/
theorem readNumeral_of_point (ht : TokenKind.number.Fits t.toList) (hpoint : '.' ∈ t.toList) :
    (readNumeral t).toOption = (round? (decimalValue t)).map settle := by
  have hread : Double.read? t = some (ofDecimal false
      (digitsValue (wholeDigits t ++ placeDigits t)) (-(placeDigits t).length)) := by
    rw [Double.read?, decimal?_of_fits ht]
    rfl
  rw [readNumeral, if_pos (by simpa using hpoint), readByDouble, hread]
  simp only [toOption_map, ofDouble_ofDecimal]
  rfl

/-- A numeral without a point is an integer, and is read as that. -/
theorem readNumeral_of_no_point (ht : TokenKind.number.Fits t.toList) (hpoint : '.' ∉ t.toList) :
    (readNumeral t).toOption = (read t).toOption := by
  obtain ⟨hinteger, hplaces⟩ := integer?_of_fits ht hpoint
  have hvalue : decimalValue t = (digitsValue (wholeDigits t) : Rat) := by
    simp [decimalValue, hplaces]
  rw [read_of_fits ht, hvalue, settle_natCast, readNumeral, if_neg (by simpa using hpoint),
    toOption_map, readInteger]
  simp only [hinteger, readDigits]
  by_cases hwhole : 4300 < (wholeDigits t).length
  · have hlong : ¬ Short t := fun h => absurd h.1 (not_le.mpr hwhole)
    rw [if_pos hwhole, if_neg hlong]
    rfl
  · have hshort : Short t := ⟨not_lt.mp hwhole, by rw [hplaces]; exact Nat.zero_le _⟩
    rw [if_neg hwhole, if_pos hshort]
    rfl

theorem decimalValue_nonneg (t : String) : 0 ≤ decimalValue t := by
  unfold decimalValue
  positivity

/-- Only a point can make the two readings differ. -/
theorem readNumeral_eq_read_iff (ht : TokenKind.number.Fits t.toList) :
    (readNumeral t).toOption = (read t).toOption ↔
      ('.' ∈ t.toList → (round? (decimalValue t)).map settle =
        if Short t then some (settle (decimalValue t)) else none) := by
  rw [← read_of_fits ht]
  constructor
  · intro h hpoint
    rw [← readNumeral_of_point ht hpoint, h]
  · intro h
    by_cases hpoint : '.' ∈ t.toList
    · rw [readNumeral_of_point ht hpoint, h hpoint]
    · exact readNumeral_of_no_point ht hpoint

/-- A grid that is fine enough for the denominator does not lose the number. -/
theorem settle_round? {q : Rat} {k : Nat} (hq : 0 ≤ q) (hden : q.den ≤ 1000000) (hlt : q < 2 ^ k)
    (hfine : q.den * 1000000 * 2 ^ k < 2 ^ 53) : (round? q).map settle = some q := by
  rcases hq.eq_or_lt with rfl | hpos
  · decide +kernel
  have hk : k < 53 := by
    by_contra hle
    have hpow : 2 ^ 53 ≤ 2 ^ k := Nat.pow_le_pow_right Nat.two_pos (not_lt.mp hle)
    have := Nat.le_mul_of_pos_left (2 ^ k) (Nat.mul_pos q.den_pos (by decide : 0 < 1000000))
    omega
  obtain ⟨v, hround, herror⟩ := round?_error hpos hlt (by omega)
  rw [hround, Option.map_some, settle]
  refine congrArg some (approximate_eq hden ?_)
  have hscale : (2 : Rat) ^ ((k : Int) - 53) = 2 ^ k / 2 ^ 53 := by
    rw [zpow_sub₀ two_ne_zero, zpow_natCast, zpow_ofNat]
  calc |v - q| * (2 * (1000000 : Nat) * q.den)
      ≤ 1 / 2 * 2 ^ ((k : Int) - 53) * (2 * (1000000 : Nat) * q.den) := by gcongr
    _ = q.den * 1000000 * 2 ^ k / 2 ^ 53 := by
        rw [hscale, Nat.cast_ofNat]
        ring
    _ < 1 := by
        rw [div_lt_one (by positivity)]
        exact_mod_cast hfine

end Rational

namespace Numeral
open Rational Double

/-- A numeral is read in the same way by itself and in an equation, or not read in either. -/
def ReadAlike (s : Scope) (x t : String) : Prop :=
  ∃ v : Option Rat, (s.eval (.number t)).toOption = v.map .rational ∧
    (Polynomial.ofExpr s x (.number t)).toOption = v.map .constant

theorem readAlike_iff_read (s : Scope) (x t : String) :
    ReadAlike s x t ↔ (readNumeral t).toOption = (read t).toOption := by
  have heval : (s.eval (.number t)).toOption = (readNumeral t).toOption.map Value.rational :=
    toOption_map _ _
  have hequation : (Polynomial.ofExpr s x (.number t)).toOption =
      (read t).toOption.map Polynomial.constant := by
    rw [Polynomial.ofExpr, toOption_map]
  have hvalue : Function.Injective Value.rational := fun p q h => by injection h
  have hconstant : Function.Injective Polynomial.constant := fun p q h => by
    simpa [Polynomial.constant] using h
  rw [ReadAlike, heval, hequation]
  constructor
  · rintro ⟨v, hv, hv'⟩
    rw [Option.map_injective hvalue hv, Option.map_injective hconstant hv']
  · intro h
    exact ⟨_, rfl, by rw [h]⟩

/-- A numeral is read alike unless its double comes to another fraction with a small denominator. It
does not as long as the doubles around the numeral are closer to each other than such fractions. -/
theorem readAlike_iff {t : String} (ht : TokenKind.number.Fits t.toList) (s : Scope) (x : String) :
    (ReadAlike s x t ↔ ('.' ∈ t.toList → (round? (decimalValue t)).map settle =
      if Short t then some (settle (decimalValue t)) else none)) ∧
      ∀ k, Short t → (decimalValue t).den ≤ 1000000 → decimalValue t < 2 ^ k →
        (decimalValue t).den * 1000000 * 2 ^ k < 2 ^ 53 → ReadAlike s x t := by
  rw [readAlike_iff_read, readNumeral_eq_read_iff ht]
  refine ⟨Iff.rfl, fun k hshort hden hlt hfine _ => ?_⟩
  rw [if_pos hshort, settle_round? (decimalValue_nonneg t) hden hlt hfine, settle,
    approximate_of_den_le hden]

/-- Six places are kept below 8192 but not above it, and seven not even near one. -/
theorem readAlike_iff_places :
    (∀ s x, ReadAlike s x "8191.999999") ∧ (∀ s x, ¬ ReadAlike s x "8192.943887") ∧
      ∀ s x, ¬ ReadAlike s x "1.0000005" := by
  have hfits (whole places : List Char) (hne : whole ≠ [])
      (h : (whole ++ places).all Text.isDigit = true) :
      TokenKind.number.Fits (whole ++ '.' :: places) :=
    ⟨whole, places, hne, List.all_eq_true.mp h, .inr rfl⟩
  refine ⟨fun s x => ?_, fun s x h => ?_, fun s x h => ?_⟩
  · have ht : TokenKind.number.Fits "8191.999999".toList :=
      hfits "8191".toList "999999".toList (by decide) rfl
    exact (readAlike_iff ht s x).2 13 (by decide +kernel) (by decide +kernel) (by decide +kernel)
      (by decide +kernel)
  · have ht : TokenKind.number.Fits "8192.943887".toList :=
      hfits "8192".toList "943887".toList (by decide) rfl
    have hsame := (readAlike_iff ht s x).1.mp h (by decide +kernel)
    revert hsame
    decide +kernel
  · have ht : TokenKind.number.Fits "1.0000005".toList :=
      hfits "1".toList "0000005".toList (by decide) rfl
    have hsame := (readAlike_iff ht s x).1.mp h (by decide +kernel)
    revert hsame
    decide +kernel

end Numeral
end Reckoner
