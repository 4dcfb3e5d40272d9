import Mathlib.Data.List.TakeWhile
import Reckoner.Proofs.Literal
import Reckoner.Token.Lexer

namespace Reckoner.Token
open Text

section Runs
variable {p : Char → Bool} {b : Char}

/-- What is taken ends at the first character that does not belong to it. -/
theorem takeWhile_append_stop (hb : p b = false) (cs w : List Char) :
    (cs ++ b :: w).takeWhile p = cs.takeWhile p := by
  induction cs with
  | nil => simp [hb]
  | cons c cs ih => simp only [List.cons_append, List.takeWhile_cons, ih]

theorem dropWhile_append_stop (hb : p b = false) (cs w : List Char) :
    (cs ++ b :: w).dropWhile p = cs.dropWhile p ++ b :: w := by
  induction cs with
  | nil => simp [hb]
  | cons c cs ih =>
    simp only [List.cons_append, List.dropWhile_cons, ih]
    split <;> rfl

end Runs

theorem isLetter_iff {c : Char} :
    isLetter c = true ↔ (65 ≤ c.toNat ∧ c.toNat ≤ 90) ∨ (97 ≤ c.toNat ∧ c.toNat ≤ 122) := by
  simp only [isLetter, Bool.or_eq_true, Bool.and_eq_true, decide_eq_true_eq, Char.le_def,
    UInt32.le_iff_toNat_le]
  rfl

theorem isBlank_of_isLetter {c : Char} (h : isLetter c = true) : isBlank c = false := by
  have hn := isLetter_iff.mp h
  rw [isBlank]
  simp only [isBlankCode, Bool.or_eq_false_iff, Bool.and_eq_false_iff, decide_eq_false_iff_not,
    beq_eq_false_iff_ne]
  omega

theorem not_isDigit_of_isLetter {c : Char} (h : isLetter c = true) : isDigit c = false := by
  have hn := isLetter_iff.mp h
  refine Bool.eq_false_iff.mpr fun hd => ?_
  have := forall_digit (p := fun n => !decide (65 ≤ n ∧ n ≤ 122)) (by decide +kernel) hd
  simp only [Bool.not_eq_true', decide_eq_false_iff_not] at this
  omega

def Lexeme.tokens (l : Lexeme) (c : Char) (pos : Nat) : List Token :=
  match l.kind with
  | none => []
  | some k => [⟨k, String.ofList (c :: l.tail), pos⟩]

/-- A text is taken apart one lexeme after the other. -/
theorem lexFrom_cons {c : Char} {cs : List Char} {l : Lexeme} (h : lexeme? c cs = some l)
    (pos : Nat) :
    lexFrom pos (c :: cs) =
      (l.tokens c pos ++ ·) <$> lexFrom (pos + 1 + l.tail.length) l.rest := by
  rw [lexFrom]
  split
  next hn => cases hn.symm.trans h
  next l' hl =>
    cases hl.symm.trans h
    unfold Lexeme.tokens
    cases lexFrom (pos + 1 + l.tail.length) l.rest with
    | error e => rfl
    | ok ts => cases l.kind <;> rfl

theorem not_isDigit_of_isBlank {b : Char} (hb : isBlank b = true) : isDigit b = false := by
  refine Bool.eq_false_iff.mpr fun h => ?_
  simp [isBlank_of_isDigit h] at hb

theorem not_isLetter_of_isBlank {b : Char} (hb : isBlank b = true) : isLetter b = false := by
  refine Bool.eq_false_iff.mpr fun h => ?_
  simp [isBlank_of_isLetter h] at hb

theorem lexeme?_blank {b : Char} (hb : isBlank b = true) (cs : List Char) :
    lexeme? b cs = some ⟨none, cs.takeWhile isBlank, cs.dropWhile isBlank⟩ := by
  simp [lexeme?, not_isDigit_of_isBlank hb, not_isLetter_of_isBlank hb, hb]

/-- A lexeme has a kind unless it is blank. -/
theorem isBlank_eq_isNone {c : Char} {cs : List Char} {l : Lexeme} (h : lexeme? c cs = some l) :
    isBlank c = l.kind.isNone := by
  by_cases hc : isBlank c = true
  · cases h.symm.trans (lexeme?_blank hc cs)
    exact hc
  · have hf : isBlank c = false := Bool.eq_false_iff.mpr hc
    unfold lexeme? at h
    simp only [hf, Bool.false_eq_true, if_false] at h
    split at h
    · cases h
      exact hf
    split at h
    · cases h
      exact hf
    split at h
    · cases h
      exact hf
    · obtain ⟨k, -, rfl⟩ := Option.map_eq_some_iff.mp h
      exact hf

/-- Blanks are passed over. -/
theorem lexFrom_blank {b : Char} (hb : isBlank b = true) (pos : Nat) (cs : List Char) :
    lexFrom pos (b :: cs) = lexFrom (pos + 1) cs := by
  have hstep {a : Char} (ha : isBlank a = true) (pos : Nat) (cs : List Char) :
      lexFrom pos (a :: cs) =
        lexFrom (pos + 1 + (cs.takeWhile isBlank).length) (cs.dropWhile isBlank) := by
    rw [lexFrom_cons (lexeme?_blank ha cs)]
    exact id_map _
  rw [hstep hb]
  cases cs with
  | nil => rfl
  | cons c cs =>
    by_cases hc : isBlank c = true
    · rw [hstep hc, List.takeWhile_cons_of_pos hc, List.dropWhile_cons_of_pos hc, List.length_cons]
      congr 1
      omega
    · rw [List.takeWhile_cons_of_neg hc, List.dropWhile_cons_of_neg hc]
      rfl

theorem lexFrom_blanks {bs : List Char} (hb : ∀ b ∈ bs, isBlank b = true) (pos : Nat)
    (cs : List Char) : lexFrom pos (bs ++ cs) = lexFrom (pos + bs.length) cs := by
  induction bs generalizing pos with
  | nil => rfl
  | cons b bs ih =>
    obtain ⟨hhead, htail⟩ := List.forall_mem_cons.mp hb
    rw [List.cons_append, lexFrom_blank hhead, ih htail, List.length_cons]
    congr 1
    omega

section Blank
variable {b : Char}

/-- A number ends where neither a digit nor a point follows. -/
theorem numberTail_append_stop (hd : isDigit b = false) (hp : b ≠ '.') (cs w : List Char) :
    numberTail (cs ++ b :: w) = ((numberTail cs).1, (numberTail cs).2 ++ b :: w) := by
  unfold numberTail
  rw [takeWhile_append_stop hd, dropWhile_append_stop hd]
  cases cs.dropWhile isDigit with
  | nil => simp [hp]
  | cons c rest =>
    by_cases hc : c = '.'
    · subst hc
      simp only [List.cons_append, takeWhile_append_stop hd, dropWhile_append_stop hd]
    · simp [hc]

/-- A lexeme that is not blank ends before a blank, whatever comes after it. -/
theorem lexeme?_append_blank {c : Char} {cs : List Char} {l : Lexeme} (hc : isBlank c = false)
    (h : lexeme? c cs = some l) (hb : isBlank b = true) (w : List Char) :
    lexeme? c (cs ++ b :: w) = some { l with rest := l.rest ++ b :: w } := by
  have hbd : isDigit b = false := not_isDigit_of_isBlank hb
  have hpoint : b ≠ '.' := by rintro rfl; exact absurd hb (by decide)
  unfold lexeme? at h ⊢
  by_cases hd : isDigit c = true
  · simp only [hd, if_true, numberTail_append_stop hbd hpoint] at h ⊢
    cases h
    rfl
  by_cases hl : isLetter c = true
  · have hbl : isLetter b = false := not_isLetter_of_isBlank hb
    simp only [hd, hl, if_true, takeWhile_append_stop hbl, dropWhile_append_stop hbl] at h ⊢
    cases h
    rfl
  have hstar : (cs ++ b :: w).head? = some '*' ↔ cs.head? = some '*' := by
    have hne : b ≠ '*' := by rintro rfl; exact absurd hb (by decide)
    cases cs <;> simp [hne]
  simp only [hd, hl, hc, hstar, Bool.false_eq_true, if_false] at h ⊢
  split at h
  next hm =>
    obtain ⟨d, ds, rfl⟩ : ∃ d ds, cs = d :: ds := by
      cases cs with
      | nil => cases hm.2
      | cons d ds => exact ⟨d, ds, rfl⟩
    cases h
    rw [if_pos hm]
    rfl
  next hm =>
    obtain ⟨k, hk, rfl⟩ := Option.map_eq_some_iff.mp h
    rw [if_neg hm, hk]
    rfl

/-- Tokens end at blanks: those before a blank are those of the text without what follows. -/
theorem lexFrom_append {pos : Nat} {cs : List Char} {ts : List Token}
    (h : lexFrom pos cs = .ok ts) (hb : isBlank b = true) (w : List Char) :
    lexFrom pos (cs ++ b :: w) = (ts ++ ·) <$> lexFrom (pos + cs.length) (b :: w) := by
  fun_induction lexFrom pos cs generalizing ts with
  | case1 pos =>
    cases h
    exact (id_map _).symm
  | case2 => cases h
  | case3 => cases h
  | case4 pos c cs l hl us hus hk ih =>
    have hc : isBlank c = true := by rw [isBlank_eq_isNone hl, hk]; rfl
    cases hl.symm.trans (lexeme?_blank hc cs)
    have hblank : ∀ d ∈ c :: cs.takeWhile isBlank, isBlank d = true :=
      List.forall_mem_cons.mpr ⟨hc, List.all_eq_true.mp List.all_takeWhile⟩
    have htext : c :: cs = (c :: cs.takeWhile isBlank) ++ cs.dropWhile isBlank := by
      rw [List.cons_append, List.takeWhile_append_dropWhile]
    cases h
    rw [htext, List.append_assoc, lexFrom_blanks hblank, List.length_append, ← Nat.add_assoc]
    rw [Nat.add_right_comm] at hus ih
    exact ih hus
  | case5 pos c cs l hl us hus k hk ih =>
    have hc : isBlank c = false := by rw [isBlank_eq_isNone hl, hk]; rfl
    have hlen : pos + 1 + l.tail.length + l.rest.length = pos + (c :: cs).length := by
      rw [← lexeme?_append hl, List.length_cons, List.length_append]
      omega
    cases h
    rw [List.cons_append, lexFrom_cons (lexeme?_append_blank hc hl hb w), ih hus, hlen]
    simp [Lexeme.tokens, hk]

end Blank

/-- A word of letters only is one name. -/
theorem lexFrom_letters {cs : List Char} (hne : cs ≠ []) (h : ∀ c ∈ cs, isLetter c = true)
    (pos : Nat) : lexFrom pos cs = .ok [⟨.identifier, String.ofList cs, pos⟩] := by
  cases cs with
  | nil => exact absurd rfl hne
  | cons c cs =>
    obtain ⟨hc, hcs⟩ := List.forall_mem_cons.mp h
    have hl : lexeme? c cs = some ⟨some .identifier, cs, []⟩ := by
      have htake : cs.takeWhile isLetter = cs := List.takeWhile_eq_self_iff.mpr hcs
      have hdrop : cs.dropWhile isLetter = [] := List.dropWhile_eq_nil_iff.mpr hcs
      simp [lexeme?, not_isDigit_of_isLetter hc, hc, htake, hdrop]
    rw [lexFrom_cons hl, lexFrom]
    rfl

section Characters

def isUsed (c : Char) : Bool :=
  isDigit c || isLetter c || isBlank c || c == '.' || (symbolKind? c).isSome

theorem isUsed_numberTail {cs : List Char} {d : Char} (hd : d ∈ (numberTail cs).1) :
    isUsed d = true := by
  have hdigit (l : List Char) (h : d ∈ l.takeWhile isDigit) : isUsed d = true := by
    simp [isUsed, List.mem_takeWhile_imp h]
  unfold numberTail at hd
  split at hd
  next rest _ =>
    rcases List.mem_append.mp hd with h | h
    · exact hdigit cs h
    · rcases List.mem_cons.mp h with rfl | h
      · decide
      · exact hdigit rest h
  next => exact hdigit cs hd

theorem isUsed_lexeme? {c : Char} {cs : List Char} {l : Lexeme} (h : lexeme? c cs = some l) :
    ∀ d ∈ c :: l.tail, isUsed d = true := by
  have hrun {p : Char → Bool} (hp : ∀ d, p d = true → isUsed d = true) (hc : p c = true) :
      ∀ d ∈ c :: cs.takeWhile p, isUsed d = true :=
    List.forall_mem_cons.mpr ⟨hp c hc, fun d hd => hp d (List.mem_takeWhile_imp hd)⟩
  unfold lexeme? at h
  split at h
  next hc =>
    cases h
    exact List.forall_mem_cons.mpr ⟨by simp [isUsed, hc], fun d => isUsed_numberTail⟩
  split at h
  next hc =>
    cases h
    exact hrun (fun d hd => by simp [isUsed, hd]) hc
  split at h
  next hc =>
    cases h
    exact hrun (fun d hd => by simp [isUsed, hd]) hc
  split at h
  next hc =>
    cases h
    obtain ⟨rfl, hstar⟩ := hc
    cases cs with
    | nil => cases hstar
    | cons d cs =>
      cases hstar
      intro d hd
      simp only [List.take_succ_cons, List.take_zero, List.mem_cons, List.not_mem_nil, or_false,
        or_self] at hd
      subst hd
      decide
  next =>
    obtain ⟨k, hk, rfl⟩ := Option.map_eq_some_iff.mp h
    exact List.forall_mem_cons.mpr ⟨by simp [isUsed, hk], fun d hd => nomatch hd⟩

/-- A text with tokens has no other characters. -/
theorem isUsed_lexFrom {pos : Nat} {cs : List Char} {ts : List Token}
    (h : lexFrom pos cs = .ok ts) : ∀ c ∈ cs, isUsed c = true := by
  fun_induction lexFrom pos cs generalizing ts with
  | case1 => exact fun c hc => nomatch hc
  | case2 => cases h
  | case3 => cases h
  | case4 pos c cs l hl us hus hk ih | case5 pos c cs l hl us hus k hk ih =>
    have hused := List.forall_mem_append.mpr ⟨isUsed_lexeme? hl, ih hus⟩
    rwa [List.cons_append, lexeme?_append hl] at hused

theorem isLetter_lexeme? {c : Char} {cs : List Char} {l : Lexeme} (h : lexeme? c cs = some l)
    (hk : l.kind = some .identifier) : ∀ d ∈ c :: l.tail, isLetter d = true := by
  have hsymbol (d : Char) : symbolKind? d ≠ some .identifier := by
    unfold symbolKind?
    split <;> simp
  unfold lexeme? at h
  split at h
  next =>
    cases h
    cases hk
  split at h
  next hc =>
    cases h
    exact List.forall_mem_cons.mpr ⟨hc, fun d hd => List.mem_takeWhile_imp hd⟩
  split at h
  next =>
    cases h
    cases hk
  split at h
  next =>
    cases h
    cases hk
  next =>
    obtain ⟨k, hsome, rfl⟩ := Option.map_eq_some_iff.mp h
    exact absurd (hsome.trans hk) (hsymbol c)

/-- What holds of the token of every lexeme holds of all tokens of a text. -/
theorem forall_lexFrom {P : Token → Prop} {pos : Nat} {cs : List Char} {ts : List Token}
    (hP : ∀ {c cs l k} pos, lexeme? c cs = some l → l.kind = some k →
      P ⟨k, String.ofList (c :: l.tail), pos⟩)
    (h : lexFrom pos cs = .ok ts) : ∀ t ∈ ts, P t := by
  fun_induction lexFrom pos cs generalizing ts with
  | case1 =>
    cases h
    exact List.forall_mem_nil P
  | case2 => cases h
  | case3 => cases h
  | case4 pos c cs l hl us hus hk ih =>
    cases h
    exact ih hus
  | case5 pos c cs l hl us hus k hk ih =>
    cases h
    exact List.forall_mem_cons.mpr ⟨hP pos hl hk, ih hus⟩

/-- Names are words of letters. -/
theorem isLetter_lexFrom {pos : Nat} {cs : List Char} {ts : List Token}
    (h : lexFrom pos cs = .ok ts) :
    ∀ t ∈ ts, t.kind = .identifier →
      t.text ≠ "" ∧ ∀ c ∈ t.text.toList, isLetter c = true := by
  refine forall_lexFrom ?_ h
  intro c cs l k pos hl hk hident
  refine ⟨fun he => ?_, ?_⟩
  · have := congrArg String.toList he
    simp at this
  · rw [String.toList_ofList]
    exact isLetter_lexeme? hl (hk.trans (congrArg some hident))

end Characters

end Reckoner.Token
