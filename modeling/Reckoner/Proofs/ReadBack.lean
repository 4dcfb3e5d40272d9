import Mathlib
import Reckoner.Proofs.Spelling

namespace Reckoner
open Text Token

section Digits

theorem digit?_of_isDigit {c : Char} (h : c.isDigit = true) : digit? c = some (c.toNat - 48) := by
  have hrange : 48 ≤ c.toNat ∧ c.toNat ≤ 57 := by
    simpa [Char.isDigit, UInt32.le_iff_toNat_le] using h
  have hlow : c.toNat < 0x660 := by omega
  simp [digit?, hlow, hrange]

theorem mem_toString {n : Nat} {c : Char} (h : c ∈ (toString n).toList) : c.isDigit = true := by
  rw [Nat.toString_eq_ofList_toDigits, String.toList_ofList] at h
  exact Nat.isDigit_of_mem_toDigits (by omega) (by omega) h

/-- The text of a number has digits only. -/
theorem isLiteral_toString (n : Nat) : Numeral.IsLiteral (toString n) where
  ne_nil := by
    rw [Nat.toString_eq_ofList_toDigits, String.toList_ofList]
    exact Nat.toDigits_ne_nil
  digits := by
    intro c hc
    simp [isDigit, digit?_of_isDigit (mem_toString hc)]

theorem digitsOf_toString (n : Nat) :
    Numeral.digitsOf (toString n) = (toString n).toList.map (fun c => c.toNat - 48) := by
  rw [Numeral.digitsOf, ← List.filterMap_eq_map]
  exact List.filterMap_congr fun c hc => digit?_of_isDigit (mem_toString hc)

/-- The digits of a number spell it. -/
theorem literalValue_toString (n : Nat) : Numeral.literalValue (toString n) = n := by
  rw [Numeral.literalValue, digitsOf_toString, digitsValue, List.foldl_map,
    Nat.toString_eq_ofList_toDigits, String.toList_ofList]
  exact Nat.ofDigitChars_eq_foldl.symm.trans Nat.ofDigitChars_ten_toDigits

end Digits

namespace Rational

/-- A number with many digits is large. -/
theorem le_of_length (j k : Nat) (hk : 0 < k) (hpow : Nat.pow 2 j ≤ Nat.pow 10 k) {n : Nat}
    (h : k < (toString n).toList.length) : j ≤ n.log2 ∧ Nat.pow 10 k ≤ n := by
  have hpos : 0 < Nat.pow 2 j := Nat.pow_pos (by omega)
  have hle : Nat.pow 10 k ≤ n := by
    rw [Nat.toString_eq_ofList_toDigits, String.toList_ofList] at h
    by_contra hlt
    have hlength := (Nat.length_toDigits_le_iff (by omega) hk).mpr (not_le.mp hlt)
    omega
  exact ⟨(Nat.le_log2 (by omega)).mpr (hpow.trans hle), hle⟩

/-- A number that can be written can be read. -/
theorem readable_toString {n : Nat} (h : isLong n = false) : Numeral.Readable (toString n) := by
  rw [Numeral.Readable, digitsOf_toString, List.length_map]
  by_contra hlength
  obtain ⟨hlog, hle⟩ :=
    le_of_length 14284 4300 (by decide) (by decide +kernel) (not_le.mp hlength)
  unfold isLong at h
  rw [decide_eq_true hlog, Bool.true_and, decide_eq_false_iff_not] at h
  exact h hle

theorem readInteger_literal {t : String} (h : Numeral.IsLiteral t) (hr : Numeral.Readable t) :
    readInteger t = .ok (Numeral.literalValue t) := by
  have hdigits := Numeral.takeDigits_of_digits h.digits
  have hint : Numeral.integer? t = some ⟨false, Numeral.digitsOf t⟩ := by
    cases hd : Numeral.digitsOf t with
    | nil =>
      obtain ⟨c, cs, hcs⟩ := List.exists_cons_of_ne_nil h.ne_nil
      obtain ⟨d, hc⟩ := Option.isSome_iff_exists.mp (h.digits c (by simp [hcs]))
      simp [Numeral.digitsOf, hcs, hc] at hd
    | cons d ds =>
      rw [Numeral.digitsOf] at hd
      simp [Numeral.integer?, h.trimChars, h.takeSign, hdigits, hd]
  have hlength : ¬ 4300 < (Numeral.digitsOf t).length := Nat.not_lt.mpr hr
  simp [readInteger, hint, readDigits, hlength, signed, Numeral.literalValue]

theorem readNumeral_literal {t : String} (h : Numeral.IsLiteral t) (hr : Numeral.Readable t) :
    readNumeral t = .ok (Numeral.literalValue t : Rat) := by
  have hpoint : '.' ∉ t.toList := by
    intro hc
    exact absurd (h.digits _ hc) (by decide)
  rw [readNumeral, if_neg (by simpa using hpoint), readInteger_literal h hr]
  simp

/-- The text of a number is read as the number. -/
theorem readNumeral_toString {n : Nat} (h : isLong n = false) :
    readNumeral (toString n) = .ok (n : Rat) := by
  rw [readNumeral_literal (isLiteral_toString n) (readable_toString h), literalValue_toString]

/-- The expression that the text of a rational is. Its sign belongs to the numerator. -/
def expr (q : Rat) : Expr :=
  let numerator := Expr.number (toString q.num.natAbs)
  let first := if q.num < 0 then .unary .neg numerator else numerator
  if q.den = 1 then first else .binary .div first (.number (toString q.den))

def tokens (q : Rat) : List Token :=
  (if q.num < 0 then [⟨.minus, "-", 0⟩] else []) ++ ⟨.number, toString q.num.natAbs, 0⟩ ::
    (if q.den = 1 then [] else [⟨.divide, "/", 0⟩, ⟨.number, toString q.den, 0⟩])

theorem toList_toString (n : Int) :
    (toString n).toList = (if n < 0 then ['-'] else []) ++ (toString n.natAbs).toList := by
  cases n with
  | ofNat n => rfl
  | negSucc n =>
    rw [if_pos (Int.negSucc_lt_zero n)]
    exact String.toList_append

theorem toList_text (q : Rat) :
    (text q).toList = (if q.num < 0 then ['-'] else []) ++ ((toString q.num.natAbs).toList ++
      if q.den = 1 then [] else '/' :: (toString q.den).toList) := by
  unfold text
  split
  · rw [toList_toString, List.append_nil]
  · rw [String.toList_append, String.toList_append, toList_toString]
    simp

section Text
variable {cs : List Char} {ts rest : List Token} {n : Nat}

theorem isNumeral_toString (n : Nat) : IsNumeral (toString n).toList := by
  have hliteral := isLiteral_toString n
  obtain ⟨c, cs, hcs⟩ := List.exists_cons_of_ne_nil hliteral.ne_nil
  have hdigits := hliteral.digits
  rw [hcs] at hdigits ⊢
  obtain ⟨hc, htail⟩ := List.forall_mem_cons.mp hdigits
  exact .mk hc (numberTail_of_digits htail)

theorem lexes_toString (hstop : ∀ c ∈ cs.head?, isDigit c = false ∧ c ≠ '.') (h : Lexes cs ts) :
    Lexes ((toString n).toList ++ cs) (⟨.number, toString n, 0⟩ :: ts) := by
  have hnumeral := h.numeral (isNumeral_toString n) hstop
  rwa [String.ofList_toList] at hnumeral

/-- The text of a rational before a text that does not begin with a digit or a point. -/
theorem lexes_text (q : Rat) (hstop : ∀ c ∈ cs.head?, isDigit c = false ∧ c ≠ '.')
    (h : Lexes cs ts) : Lexes ((text q).toList ++ cs) (tokens q ++ ts) := by
  have hdenominator : Lexes ((if q.den = 1 then [] else '/' :: (toString q.den).toList) ++ cs)
      ((if q.den = 1 then [] else [⟨.divide, "/", 0⟩, ⟨.number, toString q.den, 0⟩]) ++ ts) := by
    split
    · exact h
    · exact (lexes_toString hstop h).symbol rfl (by simp)
  have hslash : ∀ c ∈ ((if q.den = 1 then [] else '/' :: (toString q.den).toList) ++ cs).head?,
      isDigit c = false ∧ c ≠ '.' := by
    split
    · exact hstop
    · intro c hc
      cases hc
      decide
  have hunsigned := lexes_toString (n := q.num.natAbs) hslash hdenominator
  rw [toList_text, tokens, List.append_assoc, List.append_assoc, List.append_assoc]
  split
  · exact hunsigned.symbol rfl (by simp)
  · exact hunsigned

/-- A rational at the beginning of a term. -/
theorem derives_expr (q : Rat) (tail : Grammar.Derivation .termTail ts rest) :
    ∃ d : Grammar.Derivation .term (tokens q ++ ts) rest, d.meaning = tail.meaning (expr q) := by
  rw [tokens, expr]
  by_cases hneg : q.num < 0 <;> by_cases hden : q.den = 1
  · rw [if_pos hneg, if_pos hneg, if_pos hden, if_pos hden]
    exact ⟨.term (.base (.negative rfl (.numeral _ rfl))) tail, rfl⟩
  · rw [if_pos hneg, if_pos hneg, if_neg hden, if_neg hden]
    exact ⟨.term (.base (.negative rfl (.numeral _ rfl)))
      (.product .div rfl (.base (.numeral _ rfl)) tail), rfl⟩
  · rw [if_neg hneg, if_neg hneg, if_pos hden, if_pos hden]
    exact ⟨.term (.base (.numeral _ rfl)) tail, rfl⟩
  · rw [if_neg hneg, if_neg hneg, if_neg hden, if_neg hden]
    exact ⟨.term (.base (.numeral _ rfl)) (.product .div rfl (.base (.numeral _ rfl)) tail), rfl⟩

end Text

/-- The value of the expression is the rational itself. -/
theorem eval_expr {q : Rat} (h : tooLong q = false) (run : Scope → Expr → Except Error Value)
    (s : Scope) : Eval.evalWith run s (expr q) = .ok (.rational q) := by
  obtain ⟨hnum, hden⟩ := Bool.or_eq_false_iff.mp h
  have hfirst : Eval.evalWith run s (if q.num < 0 then .unary .neg (.number (toString q.num.natAbs))
      else .number (toString q.num.natAbs)) = .ok (.rational q.num) := by
    have hcast : ((q.num.natAbs : Nat) : Rat) = ((q.num.natAbs : Int) : Rat) :=
      (Int.cast_natCast _).symm
    split
    next hneg =>
      have hnat : (q.num.natAbs : Int) = -q.num := by omega
      simp only [Eval.evalWith, readNumeral_toString hnum, Outcome.map_ok, Outcome.ok_bind,
        Eval.negate, Value.neg, hcast, hnat, Int.cast_neg, neg_neg]
    next hneg =>
      have hnat : (q.num.natAbs : Int) = q.num := by omega
      simp only [Eval.evalWith, readNumeral_toString hnum, Outcome.map_ok, hcast, hnat]
  rw [expr]
  split
  next hone => rw [hfirst, (Rat.den_eq_one_iff q).mp hone]
  next hone =>
    have hzero : (q.den : Rat) ≠ 0 := by exact_mod_cast q.den_nz
    simp only [Eval.evalWith, hfirst, readNumeral_toString hden, Outcome.map_ok, Outcome.ok_bind,
      Value.combine, Value.div, Value.divRational, hzero, if_false, Rat.num_div_den]

theorem mem_text {q : Rat} {c : Char} (h : c ∈ (text q).toList) :
    isBlank c = false ∧ isLetter c = false := by
  have hdigit {n : Nat} (hc : c ∈ (toString n).toList) :
      isBlank c = false ∧ isLetter c = false := by
    have hd := (isLiteral_toString n).digits c hc
    refine ⟨isBlank_of_isDigit hd, Bool.eq_false_iff.mpr fun hl => ?_⟩
    rw [not_isDigit_of_isLetter hl] at hd
    cases hd
  rw [toList_text, List.mem_append, List.mem_append] at h
  rcases h with hsign | hnum | hover
  · split at hsign
    · cases List.mem_singleton.mp hsign
      decide
    · cases hsign
  · exact hdigit hnum
  · split at hover
    · cases hover
    · rcases List.mem_cons.mp hover with rfl | hden
      · decide
      · exact hdigit hden

theorem text_ne_nil (q : Rat) : (text q).toList ≠ [] := by
  rw [toList_text]
  simp

end Rational

namespace GaussRat

def unitText (q : Rat) : String :=
  (if q < 0 then "-" else "") ++ imaginaryText q

def unitExpr (q : Rat) : Expr :=
  if q = 1 then .imaginary
  else if q = -1 then .unary .neg .imaginary
  else .binary .mul (Rational.expr q) .imaginary

def unitTokens (q : Rat) : List Token :=
  if q = 1 then [⟨.identifier, "i", 0⟩]
  else if q = -1 then [⟨.minus, "-", 0⟩, ⟨.identifier, "i", 0⟩]
  else Rational.tokens q ++ [⟨.identifier, "i", 0⟩]

/-- The sign of a multiple of the unit is that of its factor, which is left out if it is one. -/
theorem toList_unitText (q : Rat) :
    (unitText q).toList =
      if q = 1 then ['i']
      else if q = -1 then ['-', 'i']
      else (Rational.text q).toList ++ ['i'] := by
  unfold unitText imaginaryText Rat.abs
  by_cases hneg : q < 0
  · have hnum : q.num < 0 := Rat.num_neg.mpr hneg
    have hone : q ≠ 1 := by
      intro he
      subst he
      exact absurd hneg (by decide)
    simp only [hneg, not_le.mpr hneg, hone, if_true, if_false, neg_eq_iff_eq_neg]
    split
    · rfl
    · have htext : (Rational.text q).toList = '-' :: (Rational.text (-q)).toList := by
        simp [Rational.toList_text, hnum, le_of_lt hneg]
      rw [htext, String.toList_append, String.toList_append]
      rfl
  · have hminus : q ≠ -1 := by
      intro he
      subst he
      exact hneg (by decide)
    simp only [hneg, not_lt.mp hneg, hminus, if_true, if_false]
    split
    · rfl
    · rw [String.empty_append, String.toList_append]
      rfl

/-- The text of a multiple of the unit spells its tokens. -/
theorem lexes_unitText (q : Rat) : Lexes (unitText q).toList (unitTokens q) := by
  have hunit : Lexes ['i'] [⟨.identifier, "i", 0⟩] :=
    Lexes.nil.word (w := ['i']) (by simp) (List.forall_mem_singleton.mpr rfl) (by simp)
  rw [toList_unitText, unitTokens]
  split
  · exact hunit
  split
  · exact hunit.symbol rfl (by simp)
  · apply Rational.lexes_text q _ hunit
    intro c hc
    cases hc
    decide

theorem derives_unitExpr (q : Rat) (rest : List Token) :
    ∃ d : Grammar.Derivation .term (unitTokens q ++ rest) rest, d.meaning = unitExpr q := by
  rw [unitTokens, unitExpr]
  by_cases hone : q = 1
  · rw [if_pos hone, if_pos hone]
    exact ⟨.term (.base (.imaginary rfl rfl)) .termEnd, rfl⟩
  rw [if_neg hone, if_neg hone]
  by_cases hminus : q = -1
  · rw [if_pos hminus, if_pos hminus]
    exact ⟨.term (.base (.negative rfl (.imaginary rfl rfl))) .termEnd, rfl⟩
  · rw [if_neg hminus, if_neg hminus, List.append_assoc, List.singleton_append]
    exact Rational.derives_expr q (.adjacent rfl (.base (.imaginary rfl rfl)) .termEnd :
      Grammar.Derivation .termTail (⟨.identifier, "i", 0⟩ :: rest) rest)

/-- A factor and the unit side by side are multiplied. -/
theorem eval_unitExpr {q : Rat} (h : Rational.tooLong q = false)
    (run : Scope → Expr → Except Error Value) (s : Scope) :
    Eval.evalWith run s (unitExpr q) = .ok (.complex ⟨0, q⟩) := by
  rw [unitExpr]
  split
  next hone =>
    rw [hone]
    rfl
  split
  next hminus =>
    rw [hminus]
    rfl
  · simp [Eval.evalWith, Rational.eval_expr h, Value.combine, Value.star, Value.mul, ofRat, mul]

theorem mem_unitText {q : Rat} {c : Char} (h : c ∈ (unitText q).toList) : isBlank c = false := by
  rw [toList_unitText] at h
  split at h
  · cases List.mem_singleton.mp h
    decide
  split at h
  · rcases List.mem_cons.mp h with rfl | h
    · decide
    · cases List.mem_singleton.mp h
      decide
  · rcases List.mem_append.mp h with h | h
    · exact (Rational.mem_text h).1
    · cases List.mem_singleton.mp h
      decide

/-- The expression that the text of a complex number is. -/
def expr (z : GaussRat) : Expr :=
  if z.im = 0 then Rational.expr z.re
  else if z.re = 0 then unitExpr z.im
  else .binary (if z.im < 0 then .sub else .add) (Rational.expr z.re) (unitExpr z.im.abs)

/-- A complex number as the value of an expression. It is rational if it has no imaginary part. -/
def value (z : GaussRat) : Value :=
  if z.im = 0 then .rational z.re else .complex z

theorem unitText_abs (q : Rat) : unitText q.abs = imaginaryText q := by
  have habs : ¬ q.abs < 0 ∧ q.abs.abs = q.abs := by
    unfold Rat.abs
    split
    next h => simp [h]
    next h => simp [le_of_lt (not_le.mp h)]
  simp [unitText, imaginaryText, habs]

theorem tooLong_abs (q : Rat) : Rational.tooLong q.abs = Rational.tooLong q := by
  unfold Rat.abs
  split
  · rfl
  · simp [Rational.tooLong]

def tokens (z : GaussRat) : List Token :=
  if z.im = 0 then Rational.tokens z.re
  else if z.re = 0 then unitTokens z.im
  else Rational.tokens z.re ++
    (if z.im < 0 then ⟨.minus, "-", 0⟩ else ⟨.plus, "+", 0⟩) :: unitTokens z.im.abs

theorem toList_text (z : GaussRat) :
    z.text.toList =
      if z.im = 0 then (Rational.text z.re).toList
      else if z.re = 0 then (unitText z.im).toList
      else (Rational.text z.re).toList ++
        ([' ', if z.im < 0 then '-' else '+', ' '] ++ (unitText z.im.abs).toList) := by
  unfold text
  split
  · rfl
  split
  · rfl
  · have hsign : (if z.im < 0 then " - " else " + ").toList =
        [' ', if z.im < 0 then '-' else '+', ' '] := by
      split <;> rfl
    rw [String.toList_append, String.toList_append, hsign, unitText_abs, List.append_assoc]

theorem lexes_text (z : GaussRat) : Lexes z.text.toList (tokens z) := by
  have hnone : ∀ c ∈ ([] : List Char).head?, isDigit c = false ∧ c ≠ '.' :=
    fun c hc => nomatch hc
  rw [toList_text, tokens]
  split
  · have hlex := Rational.lexes_text z.re hnone .nil
    rwa [List.append_nil, List.append_nil] at hlex
  split
  · exact lexes_unitText z.im
  · have hunit : Lexes (' ' :: (unitText z.im.abs).toList) (unitTokens z.im.abs) :=
      (lexes_unitText z.im.abs).blank (by decide)
    have hsign : Lexes ([' ', if z.im < 0 then '-' else '+', ' '] ++ (unitText z.im.abs).toList)
        ((if z.im < 0 then ⟨.minus, "-", 0⟩ else ⟨.plus, "+", 0⟩) :: unitTokens z.im.abs) := by
      apply Lexes.blank (by decide)
      split
      · exact hunit.symbol rfl (by simp)
      · exact hunit.symbol rfl (by simp)
    apply Rational.lexes_text z.re _ hsign
    intro c hc
    cases hc
    decide

/-- No sign follows the sign of a sum. -/
theorem kind?_unitTokens {q : Rat} (h : 0 ≤ q) : Grammar.kind? (unitTokens q) ≠ some .minus := by
  have hnum : ¬ q.num < 0 := not_lt.mpr (Rat.num_nonneg.mpr h)
  have hminus : q ≠ -1 := by
    intro he
    subst he
    exact absurd h (by decide)
  rw [unitTokens, if_neg hminus]
  split
  · simp
  · simp [Rational.tokens, hnum]

/-- The tokens of a complex number are those of a sum. -/
theorem derives_expr (z : GaussRat) :
    ∃ d : Grammar.Derivation .sum (tokens z) [], d.meaning = expr z := by
  have hunit (q : Rat) :
      ∃ d : Grammar.Derivation .term (unitTokens q) [], d.meaning = unitExpr q := by
    have hd := derives_unitExpr q []
    rwa [List.append_nil] at hd
  rw [tokens, expr]
  by_cases him : z.im = 0
  · obtain ⟨d, hd⟩ := Rational.derives_expr z.re .termEnd
    rw [if_pos him, if_pos him, ← List.append_nil (Rational.tokens z.re)]
    exact ⟨.sum d .sumEnd, hd⟩
  rw [if_neg him, if_neg him]
  by_cases hre : z.re = 0
  · obtain ⟨d, hd⟩ := hunit z.im
    rw [if_pos hre, if_pos hre]
    exact ⟨.sum d .sumEnd, hd⟩
  rw [if_neg hre, if_neg hre]
  obtain ⟨right, hright⟩ := hunit z.im.abs
  have hsign : Grammar.kind? (unitTokens z.im.abs) ≠ some .minus := by
    apply kind?_unitTokens
    unfold Rat.abs
    split
    next h => exact h
    next h => exact neg_nonneg.mpr (le_of_lt (not_le.mp h))
  by_cases hneg : z.im < 0
  · rw [if_pos hneg, if_pos hneg]
    obtain ⟨left, hleft⟩ := Rational.derives_expr z.re .termEnd
    exact ⟨.sum left (.sumNext .sub rfl hsign right .sumEnd),
      congr (congrArg (Expr.binary .sub) hleft) hright⟩
  · rw [if_neg hneg, if_neg hneg]
    obtain ⟨left, hleft⟩ := Rational.derives_expr z.re .termEnd
    exact ⟨.sum left (.sumNext .add rfl hsign right .sumEnd),
      congr (congrArg (Expr.binary .add) hleft) hright⟩

theorem head_unitText (q : Rat) :
    ∃ c cs, (unitText q).toList = c :: cs ∧ (isLetter c = false ∨ c = 'i') := by
  rw [toList_unitText]
  split
  · exact ⟨_, _, rfl, .inr rfl⟩
  split
  · exact ⟨_, _, rfl, .inl (by decide)⟩
  · obtain ⟨c, cs, hcs⟩ := List.exists_cons_of_ne_nil (Rational.text_ne_nil q)
    have hc : c ∈ (Rational.text q).toList := by
      rw [hcs]
      exact List.mem_cons_self
    rw [hcs]
    exact ⟨c, cs ++ ['i'], rfl, .inl (Rational.mem_text hc).2⟩

/-- The text of a number has no blanks at its ends, and does not begin with a letter other than the
imaginary unit. -/
theorem head_text (z : GaussRat) :
    trimChars z.text.toList = z.text.toList ∧
    ∃ c cs, z.text.toList = c :: cs ∧ (isLetter c = false ∨ c = 'i') := by
  obtain ⟨c, cs, hcs⟩ := List.exists_cons_of_ne_nil (Rational.text_ne_nil z.re)
  have hc : isBlank c = false ∧ isLetter c = false := by
    apply Rational.mem_text (q := z.re)
    rw [hcs]
    exact List.mem_cons_self
  rw [toList_text]
  split
  · exact ⟨trimChars_of_no_blank fun d hd => (Rational.mem_text hd).1, c, cs, hcs, .inl hc.2⟩
  split
  · exact ⟨trimChars_of_no_blank fun d hd => mem_unitText hd, head_unitText z.im⟩
  · have hunit : trimChars (unitText z.im.abs).toList = (unitText z.im.abs).toList :=
      trimChars_of_no_blank fun d hd => mem_unitText hd
    obtain ⟨d, ds, hds, -⟩ := head_unitText z.im.abs
    have hd : isBlank d = false := by
      apply mem_unitText (q := z.im.abs)
      rw [hds]
      exact List.mem_cons_self
    rw [← List.append_assoc, hcs, List.cons_append]
    refine ⟨?_, c, _, rfl, .inl hc.2⟩
    have hne : trimChars (unitText z.im.abs).toList ≠ [] := by
      rw [hunit, hds]
      exact List.cons_ne_nil _ _
    rw [trimChars_append_left hc.1 hne, hunit, hds,
      List.takeWhile_cons_of_neg (by simp [hd]), List.nil_append]

/-- The value of the expression is the number itself. -/
theorem eval_expr {z : GaussRat} (h : z.tooLong = false) (run : Scope → Expr → Except Error Value)
    (s : Scope) : Eval.evalWith run s (expr z) = .ok z.value := by
  obtain ⟨hre, him⟩ := Bool.or_eq_false_iff.mp h
  obtain ⟨re, im⟩ := z
  simp only [expr, value] at *
  split
  · exact Rational.eval_expr hre run s
  split
  next hzero =>
    rw [hzero]
    exact eval_unitExpr him run s
  · have himag := eval_unitExpr ((tooLong_abs im).trans him) run s
    by_cases hneg : im < 0
    · have habs : im.abs = -im := if_neg (not_le.mpr hneg)
      rw [habs] at himag ⊢
      simp [Eval.evalWith, Rational.eval_expr hre, himag, hneg, Value.combine, Value.sub,
        ofRat, sub]
    · have habs : im.abs = im := if_pos (not_lt.mp hneg)
      rw [habs] at himag ⊢
      simp [Eval.evalWith, Rational.eval_expr hre, himag, hneg, Value.combine, Value.add,
        ofRat, add]

end GaussRat

namespace Session
open Text

/-- A text that begins with no letter, or with the imaginary unit, is no command. -/
theorem isCommand_of_head {c : Char} {cs : List Char} (hused : ∀ d ∈ c :: cs, isUsed d = true)
    (hc : isLetter c = false ∨ c = 'i') : isCommand (String.ofList (c :: cs)) = false := by
  obtain ⟨d, ds, hlow⟩ := List.exists_cons_of_ne_nil (lowerChar_ne_nil c)
  have hfirst {word : String} {x : Char} {xs : List Char} (hword : word.toList = x :: xs)
      (hx : isPlainSmall x = true) :
      ¬ word.toList <+: (lower (String.ofList (c :: cs))).toList := by
    intro hp
    rw [hword, toList_lower hused, List.flatMap_cons, hlow, List.cons_append,
      List.cons_prefix_cons] at hp
    obtain ⟨rfl, -⟩ := hp
    rcases hc with hc | rfl
    · rw [isLetter_of_mem_lowerChar (by simp [hlow]) hx] at hc
      cases hc
    · cases hlow
      exact absurd hx (by decide)
  have hequal {word : String} {x : Char} {xs : List Char} (hword : word.toList = x :: xs)
      (hx : isPlainSmall x = true) : lower (String.ofList (c :: cs)) ≠ word := by
    intro he
    apply hfirst hword hx
    rw [he]
  simp only [isCommand, Bool.or_eq_false_iff, decide_eq_false_iff_not,
    String.startsWith_string_eq_false_iff]
  exact ⟨⟨⟨⟨hequal rfl rfl, hequal rfl rfl⟩, hequal rfl rfl⟩, hfirst rfl rfl⟩, hfirst rfl rfl⟩

/-- A text without blanks at its ends that spells a sum is an expression. -/
theorem expresses_of_lexes {c : Char} {cs : List Char} {ts : List Token} {e : Expr}
    (hc : isLetter c = false ∨ c = 'i') (htrim : trimChars (c :: cs) = c :: cs)
    (hlex : Lexes (c :: cs) ts) (hd : ∃ d : Grammar.Derivation .sum ts [], d.meaning = e) :
    Expresses (String.ofList (c :: cs)) e := by
  obtain ⟨us, hus, -⟩ := hlex 0
  obtain ⟨d, rfl⟩ := hd
  constructor
  · rw [trim, String.toList_ofList, htrim]
    exact isCommand_of_head (isUsed_lexFrom hus) hc
  · rw [trim, String.toList_ofList, htrim]
    refine read_of_lexes (?_ : Lexes _ ts) ?_
    · rwa [String.toList_ofList]
    · exact (Grammar.parse_eq_some_iff (d.ne_nil (by simp [Grammar.Symbol.size]))).mpr
        ⟨.expression d, rfl⟩

/-- The text of a number is a line, and as a line it is an expression. -/
theorem expresses_text (z : GaussRat) : Expresses z.text z.expr := by
  obtain ⟨htrim, c, cs, hcs, hc⟩ := z.head_text
  have hlex := z.lexes_text
  rw [hcs] at htrim hlex
  rw [← String.ofList_toList (s := z.text), hcs]
  exact expresses_of_lexes hc htrim hlex z.derives_expr

/-- The text of a number is a line that is shown as it stands, and its value is the number. -/
theorem shown_text {z : GaussRat} (h : z.tooLong = false) (s : Scope) :
    s.eval z.expr = .ok z.value ∧ execute s z.text = (.ok (some z.text), s) := by
  have heval : s.eval z.expr = .ok z.value := GaussRat.eval_expr h _ s
  have hresult : z.value.result = .ok z.text := by
    unfold GaussRat.value
    split
    next him =>
      have hre : Rational.tooLong z.re = false := (Bool.or_eq_false_iff.mp h).1
      simp [Value.result, Value.text?, Value.tooLong, Value.text, hre, GaussRat.text, him]
    next => simp [Value.result, Value.text?, Value.tooLong, Value.text, h]
  refine ⟨heval, ?_⟩
  rw [execute_expression (expresses_text z), heval]
  simp [hresult]

/-- The text of a rational or complex number whose integers can be written is a line that has the
number as its value, in every session. -/
theorem execute_text :
    (∀ q : Rat, Rational.tooLong q = false → ∃ e, Expresses (Rational.text q) e ∧
      ∀ s : Scope, s.eval e = .ok (.rational q) ∧
        execute s (Rational.text q) = (.ok (some (Rational.text q)), s)) ∧
    ∀ z : GaussRat, z.tooLong = false → ∃ e, Expresses z.text e ∧
      ∀ s : Scope, s.eval e = .ok (if z.im = 0 then .rational z.re else .complex z) ∧
        execute s z.text = (.ok (some z.text), s) := by
  constructor
  · intro q hq
    -- A rational is written as the complex number that has no imaginary part.
    have hzero : Rational.tooLong 0 = false := by decide
    have hlong : (GaussRat.ofRat q).tooLong = false := Bool.or_eq_false_iff.mpr ⟨hq, hzero⟩
    exact ⟨_, expresses_text (GaussRat.ofRat q), shown_text hlong⟩
  · intro z hz
    exact ⟨_, expresses_text z, shown_text hz⟩

/-- Both signs are moved, and two numbers side by side are multiplied. -/
theorem execute_text_negative :
    (Rational.tooLong (-7 / 3) = false ∧ (⟨-3 / 4, -1 / 2⟩ : GaussRat).tooLong = false) ∧
    (∃ e, Expresses "-7/3" e ∧ ∀ s : Scope, s.eval e = .ok (.rational (-7 / 3)) ∧
      execute s "-7/3" = (.ok (some "-7/3"), s)) ∧
    ∃ e, Expresses "-3/4 - 1/2i" e ∧ ∀ s : Scope, s.eval e = .ok (.complex ⟨-3 / 4, -1 / 2⟩) ∧
      execute s "-3/4 - 1/2i" = (.ok (some "-3/4 - 1/2i"), s) := by
  have hq : Rational.tooLong (-7 / 3) = false := by decide +kernel
  have hz : (⟨-3 / 4, -1 / 2⟩ : GaussRat).tooLong = false := by decide +kernel
  have hqtext : Rational.text (-7 / 3) = "-7/3" := by decide +kernel
  have hztext : (⟨-3 / 4, -1 / 2⟩ : GaussRat).text = "-3/4 - 1/2i" := by decide +kernel
  have hrational := execute_text.1 (-7 / 3) hq
  have hcomplex := execute_text.2 ⟨-3 / 4, -1 / 2⟩ hz
  rw [hqtext] at hrational
  rw [hztext, if_neg (by decide +kernel)] at hcomplex
  exact ⟨⟨hq, hz⟩, hrational, hcomplex⟩

end Session
end Reckoner
