import Mathlib
import Reckoner.Numeral
import Reckoner.Proofs.Request
import Reckoner.Text.Quoted

namespace Reckoner.Text
open Token (isLetter isLetter_iff)

/-- Texts that differ in the case of letters only. -/
def Recased (s t : String) : Prop :=
  s.toLower = t.toLower

section Chars

theorem isLetter_eq_isAlpha (c : Char) : isLetter c = c.isAlpha := by
  simp [isLetter, Char.isAlpha, Char.isUpper, Char.isLower, Char.le_def]

theorem toLower_of_not_isLetter {c : Char} (h : isLetter c = false) : c.toLower = c := by
  apply Char.toLower_eq_of_not_isUpper
  intro hupper
  simp [isLetter_eq_isAlpha, Char.isAlpha, hupper] at h

/-- Letters stay letters, and nothing else becomes one. -/
@[simp]
theorem isLetter_toLower_eq (c : Char) : isLetter c.toLower = isLetter c := by
  rw [isLetter_eq_isAlpha, Char.isAlpha_toLower_eq_isAlpha, isLetter_eq_isAlpha]

/-- What does not tell letters apart does not depend on case. -/
theorem toLower_congr {α : Type*} {f : Char → α} {a : α} (h : ∀ c, isLetter c = true → f c = a)
    (c : Char) : f c.toLower = f c := by
  cases hc : isLetter c with
  | false => rw [toLower_of_not_isLetter hc]
  | true => rw [h c hc, h _ ((isLetter_toLower_eq c).trans hc)]

@[simp]
theorem isBlank_toLower (c : Char) : isBlank c.toLower = isBlank c :=
  toLower_congr (fun _ h => Token.isBlank_of_isLetter h) c

@[simp]
theorem isDigit_toLower (c : Char) : isDigit c.toLower = isDigit c :=
  toLower_congr (fun _ h => Token.not_isDigit_of_isLetter h) c

@[simp]
theorem digit?_toLower (c : Char) : digit? c.toLower = digit? c :=
  toLower_congr (fun _ h => by simpa [isDigit] using Token.not_isDigit_of_isLetter h) c

/-- A character that is no letter has no other form. -/
theorem toLower_eq_iff {d : Char} (hd : isLetter d = false) (c : Char) : c.toLower = d ↔ c = d := by
  refine iff_of_eq (toLower_congr (f := (· = d)) (a := False) (fun c hc => ?_) c)
  refine eq_false fun he => ?_
  rw [he, hd] at hc
  cases hc

theorem toNat_lt_of_isLetter {c : Char} (h : isLetter c = true) : c.toNat < 0x7F := by
  have hn := isLetter_iff.mp h
  omega

theorem isVisible_of_isLetter {c : Char} (h : isLetter c = true) : isVisible c = true := by
  have hn := isLetter_iff.mp h
  simp only [isVisible, toNat_lt_of_isLetter h, if_true, decide_eq_true_eq]
  omega

@[simp]
theorem isCased_toLower (c : Char) : isCased c.toLower = isCased c := by
  refine toLower_congr (a := true) (fun c hc => ?_) c
  have hn : c.toNat < 0x80 := Nat.lt_succ_of_lt (toNat_lt_of_isLetter hc)
  simpa only [isCased, hn, if_true, isLetter_eq_isAlpha] using hc

@[simp]
theorem isJoining_toLower (c : Char) : isJoining c.toLower = isJoining c := by
  refine toLower_congr (a := false) (fun c hc => ?_) c
  have hn := isLetter_iff.mp hc
  have hlt : c.toNat < 0x80 := by omega
  simp only [isJoining, hlt, if_true, Bool.or_eq_false_iff, beq_eq_false_iff_ne]
  omega

theorem toNat_toLower_eq_iff {n : Nat} (hn : 0x7F ≤ n) (c : Char) :
    c.toLower.toNat = n ↔ c.toNat = n := by
  refine iff_of_eq (toLower_congr (f := fun c => c.toNat = n) (a := False) (fun c hc => ?_) c)
  have := toNat_lt_of_isLetter hc
  exact eq_false (by omega)

/-- The small form of a character does not depend on its case. -/
@[simp]
theorem lowerChar_toLower (c : Char) : lowerChar c.toLower = lowerChar c := by
  cases hc : isLetter c with
  | false => rw [toLower_of_not_isLetter hc]
  | true =>
    have hsmall : ∀ {c : Char}, isLetter c = true → lowerChar c = [c.toLower] := fun h =>
      if_pos (Nat.lt_succ_of_lt (toNat_lt_of_isLetter h))
    rw [hsmall hc, hsmall ((isLetter_toLower_eq c).trans hc), Char.toLower_toLower_eq_toLower]

end Chars

section Lists

theorem takeWhile_map_toLower {p : Char → Bool} (hp : ∀ c : Char, p c.toLower = p c)
    (cs : List Char) : (cs.map Char.toLower).takeWhile p = (cs.takeWhile p).map Char.toLower := by
  rw [List.takeWhile_map, show p ∘ Char.toLower = p from funext hp]

theorem dropWhile_map_toLower {p : Char → Bool} (hp : ∀ c : Char, p c.toLower = p c)
    (cs : List Char) : (cs.map Char.toLower).dropWhile p = (cs.dropWhile p).map Char.toLower := by
  rw [List.dropWhile_map, show p ∘ Char.toLower = p from funext hp]

theorem meetsCased_map_toLower (cs : List Char) :
    meetsCased (cs.map Char.toLower) = meetsCased cs := by
  rw [meetsCased, dropWhile_map_toLower isJoining_toLower, meetsCased]
  cases cs.dropWhile isJoining <;> simp

/-- Whether a capital sigma ends a word is decided by the characters around it, in either case. -/
theorem lowerAfter_map_toLower (before cs : List Char) :
    lowerAfter (before.map Char.toLower) (cs.map Char.toLower) = lowerAfter before cs := by
  induction cs generalizing before with
  | nil => rfl
  | cons c cs ih =>
    have hrest := ih (c :: before)
    simp only [List.map_cons] at hrest
    simp only [List.map_cons, lowerAfter, lowerAt, hrest, meetsCased_map_toLower,
      toNat_toLower_eq_iff (n := 0x3A3) (by omega), lowerChar_toLower]

theorem trimChars_map_toLower (cs : List Char) :
    trimChars (cs.map Char.toLower) = (trimChars cs).map Char.toLower := by
  simp only [trimChars, dropBlanks, dropWhile_map_toLower isBlank_toLower, ← List.map_reverse]

theorem splitOnP_map_toLower {p : Char → Bool} (hp : ∀ c : Char, p c.toLower = p c)
    (cs : List Char) :
    (cs.map Char.toLower).splitOnP p = (cs.splitOnP p).map (List.map Char.toLower) := by
  induction cs with
  | nil => simp
  | cons c cs ih =>
    rw [List.map_cons, List.splitOnP_cons_eq_if_modifyHead,
      List.splitOnP_cons_eq_if_modifyHead, hp, ih]
    cases p c with
    | true => simp
    | false => cases cs.splitOnP p <;> simp

end Lists

section Strings

theorem toList_toLower (s : String) : s.toLower.toList = s.toList.map Char.toLower :=
  String.toList_map

theorem toLower_ofList (cs : List Char) :
    (String.ofList cs).toLower = String.ofList (cs.map Char.toLower) := by
  rw [← String.toList_inj, toList_toLower, String.toList_ofList, String.toList_ofList]

@[simp]
theorem toLower_append (s t : String) : (s ++ t).toLower = s.toLower ++ t.toLower := by
  simp [← String.toList_inj, toList_toLower]

theorem toLower_intercalate (s : String) (ts : List String) :
    (String.intercalate s ts).toLower = String.intercalate s.toLower (ts.map String.toLower) := by
  induction ts with
  | nil => simp [← String.toList_inj, toList_toLower]
  | cons t ts ih =>
    cases ts with
    | nil => simp
    | cons u us =>
      rw [String.intercalate_cons_cons, List.map_cons, List.map_cons,
        String.intercalate_cons_cons, toLower_append, toLower_append, ih, List.map_cons]

theorem lower_toLower (s : String) : lower s.toLower = lower s := by
  have h := lowerAfter_map_toLower [] s.toList
  rw [List.map_nil] at h
  rw [lower, toList_toLower, h, lower]

theorem trim_toLower (s : String) : trim s.toLower = (trim s).toLower := by
  rw [trim, toList_toLower, trimChars_map_toLower, trim, toLower_ofList]

/-- Blanks are no letters, so the words are the same. -/
theorem words_toLower (s : String) : words s.toLower = (words s).map String.toLower := by
  have hempty : (fun w : List Char => !w.isEmpty) ∘ List.map Char.toLower =
      fun w => !w.isEmpty := by
    funext w
    cases w <;> rfl
  rw [words, toList_toLower, splitOnP_map_toLower isBlank_toLower, List.filter_map, hempty, words,
    List.map_map, List.map_map]
  refine List.map_congr_left fun w _ => ?_
  rw [Function.comp_apply, Function.comp_apply, toLower_ofList]

section Recased
variable {s t : String}

instance : DecidableRel Recased := fun s t =>
  decidable_of_iff (s.toList.map Char.toLower = t.toList.map Char.toLower)
    (by rw [← toList_toLower, ← toList_toLower, String.toList_inj, Recased])

theorem Recased.lower_eq (h : Recased s t) : lower s = lower t := by
  rw [← lower_toLower s, h, lower_toLower]

theorem Recased.trim (h : Recased s t) : Recased (trim s) (trim t) := by
  rw [Recased, ← trim_toLower, h, trim_toLower]

theorem Recased.words (h : Recased s t) : List.Forall₂ Recased (words s) (words t) := by
  have hwords : (Text.words s).map String.toLower = (Text.words t).map String.toLower := by
    rw [← words_toLower, h, words_toLower]
  rw [← List.forall₂_eq_eq_eq, List.forall₂_map_left_iff, List.forall₂_map_right_iff] at hwords
  exact hwords

theorem Recased.eq_empty_iff (h : Recased s t) : s = "" ↔ t = "" := by
  have hempty (s : String) : s.toLower = "" ↔ s = "" := String.map_eq_empty
  rw [← hempty s, h, hempty]

end Recased

theorem quoteFor_map_toLower (cs : List Char) : quoteFor (cs.map Char.toLower) = quoteFor cs := by
  have hcontains {d : Char} (hd : isLetter d = false) :
      (cs.map Char.toLower).contains d = cs.contains d := by
    simp [toLower_eq_iff hd, eq_comm]
  rw [quoteFor, hcontains (by decide), hcontains (by decide), quoteFor]

theorem isLetter_quoteFor (cs : List Char) : isLetter (quoteFor cs) = false := by
  unfold quoteFor
  split <;> decide

theorem escapeChar_of_isLetter {q c : Char} (hq : isLetter q = false) (hc : isLetter c = true) :
    escapeChar q c = [c] := by
  have hne {d : Char} (hd : isLetter d = false) : (c == d) = false := by
    refine beq_eq_false_iff_ne.mpr fun he => ?_
    rw [he, hd] at hc
    cases hc
  simp [escapeChar, hne hq, hne (d := backslash) (by decide), hne (d := '\t') (by decide),
    hne (d := '\n') (by decide), hne (d := '\r') (by decide), isVisible_of_isLetter hc]

/-- Letters stand for themselves, and the other characters have no case. -/
theorem escapeChar_toLower {q : Char} (hq : isLetter q = false) (c : Char) :
    (escapeChar q c.toLower).map Char.toLower = (escapeChar q c).map Char.toLower := by
  cases hc : isLetter c with
  | false => rw [toLower_of_not_isLetter hc]
  | true =>
    rw [escapeChar_of_isLetter hq hc,
      escapeChar_of_isLetter hq ((isLetter_toLower_eq c).trans hc)]
    simp

theorem quoted_toLower (s : String) : (quoted s.toLower).toLower = (quoted s).toLower := by
  have hq := isLetter_quoteFor s.toList
  simp only [quoted, toLower_ofList, toList_toLower, quoteFor_map_toLower, List.map_append,
    List.map_cons, List.map_flatMap, List.flatMap_map, escapeChar_toLower hq]

theorem Recased.quoted {s t : String} (h : Recased s t) : Recased (quoted s) (quoted t) := by
  rw [Recased, ← quoted_toLower, h, quoted_toLower]

end Strings
end Reckoner.Text

namespace Reckoner.Numeral
open Text
open Token (isLetter)

abbrev smallRest {α : Type} (r : α × List Char) : α × List Char :=
  (r.1, r.2.map Char.toLower)

theorem takeSign_map_toLower (cs : List Char) :
    takeSign (cs.map Char.toLower) = smallRest (takeSign cs) := by
  cases cs with
  | nil => rfl
  | cons c cs =>
    by_cases hminus : c = '-'
    · subst hminus
      rfl
    · by_cases hplus : c = '+'
      · subst hplus
        rfl
      · have hminus' : c.toLower ≠ '-' := fun h => hminus ((toLower_eq_iff (by decide) c).mp h)
        have hplus' : c.toLower ≠ '+' := fun h => hplus ((toLower_eq_iff (by decide) c).mp h)
        simp [takeSign, hminus, hplus, hminus', hplus']

theorem takeDigits_map_toLower (cs : List Char) :
    takeDigits (cs.map Char.toLower) = smallRest (takeDigits cs) := by
  fun_induction takeDigits cs with
  | case1 => rfl
  | case2 c cs hc => simp [takeDigits, hc]
  | case3 c d hc c' cs' hc' ds rest hrest ih =>
    simp only [List.map_cons] at ih
    simp [takeDigits, hc, hc', ih, hrest]
  | case4 c d hc c' cs' hc' => simp [takeDigits, hc, hc']
  | case5 c d hc cs hcs ds rest hrest ih =>
    -- The same rule is used: no underscore has come before a character.
    have hmap : ∀ c' cs', cs.map Char.toLower ≠ '_' :: c' :: cs' := by
      intro c' cs' he
      obtain ⟨u, us, rfl, hu, hus⟩ := List.map_eq_cons_iff.mp he
      obtain ⟨v, vs, rfl, -, -⟩ := List.map_eq_cons_iff.mp hus
      exact hcs v vs (by rw [(toLower_eq_iff (by decide) u).mp hu])
    rw [List.map_cons, takeDigits, digit?_toLower, hc]
    simp [ih, hrest]

theorem takePlaces_map_toLower (cs : List Char) :
    takePlaces (cs.map Char.toLower) = smallRest (takePlaces cs) := by
  cases cs with
  | nil => rfl
  | cons c cs =>
    by_cases hpoint : c = '.'
    · subst hpoint
      exact takeDigits_map_toLower cs
    · have hpoint' : c.toLower ≠ '.' := fun h => hpoint ((toLower_eq_iff (by decide) c).mp h)
      simp [takePlaces, hpoint, hpoint']

/-- The letter of an exponent may be in either case. -/
theorem takeExponent_map_toLower (cs : List Char) :
    takeExponent (cs.map Char.toLower) = (takeExponent cs).map smallRest := by
  cases cs with
  | nil => rfl
  | cons c cs =>
    have hsmall : (c.toLower == 'e' || c.toLower == 'E') = (c == 'e' || c == 'E') := by
      cases hc : isLetter c with
      | false => rw [toLower_of_not_isLetter hc]
      | true =>
        have hall : ∀ n < 0x7F, ((Char.ofNat n).toLower == 'e' || (Char.ofNat n).toLower == 'E') =
            (Char.ofNat n == 'e' || Char.ofNat n == 'E') := by decide
        simpa using hall c.toNat (toNat_lt_of_isLetter hc)
    simp only [List.map_cons, takeExponent, hsmall, takeSign_map_toLower, takeDigits_map_toLower]
    split
    · generalize takeDigits (takeSign cs).2 = r
      obtain ⟨_ | ⟨d, ds⟩, rest⟩ := r <;> rfl
    · rfl

theorem startsNumber_map_toLower (cs : List Char) :
    startsNumber (cs.map Char.toLower) = startsNumber cs := by
  cases cs with
  | nil => rfl
  | cons c cs =>
    by_cases hpoint : c = '.'
    · subst hpoint
      cases cs <;> simp [startsNumber]
    · have hpoint' : c.toLower ≠ '.' := fun h => hpoint ((toLower_eq_iff (by decide) c).mp h)
      cases cs <;> simp [startsNumber, hpoint, hpoint']

theorem decimal?_toLower (s : String) : decimal? s.toLower = decimal? s := by
  simp only [decimal?, toList_toLower, trimChars_map_toLower, takeSign_map_toLower, List.map_map,
    startsNumber_map_toLower, takeDigits_map_toLower, takePlaces_map_toLower,
    takeExponent_map_toLower]
  generalize (takeSign (trimChars s.toList)).2 = cs
  generalize takeExponent (takePlaces (takeDigits cs).2).2 = r
  have hcomp : Char.toLower ∘ Char.toLower = Char.toLower :=
    funext Char.toLower_toLower_eq_toLower
  rw [hcomp]
  obtain _ | ⟨exponent, _ | ⟨c, rest⟩⟩ := r <;> rfl

/-- Numerals that differ in case only are read as the same number. -/
theorem decimal?_of_recased {s t : String} (h : Recased s t) : decimal? s = decimal? t := by
  rw [← decimal?_toLower s, h, decimal?_toLower]

theorem integer?_toLower (s : String) : integer? s.toLower = integer? s := by
  simp only [integer?, toList_toLower, trimChars_map_toLower, takeSign_map_toLower,
    takeDigits_map_toLower]
  generalize takeDigits (takeSign (trimChars s.toList)).2 = r
  obtain ⟨_ | ⟨d, ds⟩, _ | ⟨c, cs⟩⟩ := r <;> rfl

theorem integer?_of_recased {s t : String} (h : Recased s t) : integer? s = integer? t := by
  rw [← integer?_toLower s, h, integer?_toLower]

end Reckoner.Numeral
