import Mathlib
import Reckoner.Proofs.Spelling

namespace Reckoner

namespace Token
open Text

section Runs
variable {p : Char → Bool} {w r : List Char}

theorem takeWhile_append_head (hw : ∀ c ∈ w, p c = true) (hr : ∀ c ∈ r.head?, p c = false) :
    (w ++ r).takeWhile p = w := by
  rw [List.takeWhile_append_of_pos hw, takeWhile_head hr, List.append_nil]

theorem dropWhile_append_head (hw : ∀ c ∈ w, p c = true) (hr : ∀ c ∈ r.head?, p c = false) :
    (w ++ r).dropWhile p = r := by
  rw [List.dropWhile_append_of_pos hw, dropWhile_head hr]

theorem head_dropWhile (p : Char → Bool) (cs : List Char) :
    ∀ c ∈ (cs.dropWhile p).head?, p c = false := by
  intro c hc
  have h := List.head?_dropWhile_not p cs
  rwa [Option.mem_def.mp hc] at h

theorem mem_head_of_cut {c : Char} {cs : List Char} (h : r <+: cs) (hc : c ∈ r.head?) :
    c ∈ cs.head? := by
  obtain ⟨v, rfl⟩ := h
  cases r with
  | nil => cases hc
  | cons d r => exact hc

end Runs

/-- The characters of a number after its first digit, and what follows them. After a number without
a point there is neither a digit nor a point, after one with a point there is no digit. -/
inductive NumberShape : List Char → List Char → List Char → Prop where
  | whole {ds r : List Char} (hds : ∀ c ∈ ds, isDigit c = true)
      (hr : ∀ c ∈ r.head?, isDigit c = false ∧ c ≠ '.') : NumberShape (ds ++ r) ds r
  | point {ds fs r : List Char} (hds : ∀ c ∈ ds, isDigit c = true)
      (hfs : ∀ c ∈ fs, isDigit c = true) (hr : ∀ c ∈ r.head?, isDigit c = false) :
      NumberShape (ds ++ '.' :: (fs ++ r)) (ds ++ '.' :: fs) r

theorem not_isDigit_point : isDigit '.' = false := by decide

theorem numberTail_of_shape {cs w r : List Char} (h : NumberShape cs w r) :
    numberTail cs = (w, r) := by
  cases h with
  | whole hds hr =>
    have hr' := fun c hc => (hr c hc).1
    simp only [numberTail, takeWhile_append_head hds hr', dropWhile_append_head hds hr']
    split
    next r' => exact absurd rfl (hr '.' rfl).2
    next => rfl
  | @point ds fs r hds hfs hr =>
    have hpoint : ∀ c ∈ ('.' :: (fs ++ r)).head?, isDigit c = false := by
      intro c hc
      cases hc
      exact not_isDigit_point
    simp only [numberTail, takeWhile_append_head hds hpoint, dropWhile_append_head hds hpoint,
      takeWhile_append_head hfs hr, dropWhile_append_head hfs hr]

/-- What is taken off for a number has its shape. -/
theorem numberShape (cs : List Char) : NumberShape cs (numberTail cs).1 (numberTail cs).2 := by
  have hall (l : List Char) : ∀ c ∈ l.takeWhile isDigit, isDigit c = true :=
    fun c hc => List.mem_takeWhile_imp hc
  have hshape : ∃ w r, NumberShape cs w r := by
    rw [← List.takeWhile_append_dropWhile (p := isDigit) (l := cs)]
    have hstop := head_dropWhile isDigit cs
    rcases hrest : cs.dropWhile isDigit with _ | ⟨d, rest⟩
    · exact ⟨_, _, .whole (hall cs) (by simp)⟩
    · rw [hrest] at hstop
      by_cases hd : d = '.'
      · subst hd
        rw [← List.takeWhile_append_dropWhile (p := isDigit) (l := rest)]
        exact ⟨_, _, .point (hall cs) (hall rest) (head_dropWhile isDigit rest)⟩
      · refine ⟨_, _, .whole (hall cs) fun c hc => ⟨hstop c hc, ?_⟩⟩
        cases hc
        exact hd
  obtain ⟨w, r, h⟩ := hshape
  rwa [numberTail_of_shape h]

inductive Begins : Char → List Char → Lexeme → Prop where
  | number {c : Char} {cs w r : List Char} (hc : isDigit c = true) (hcs : NumberShape cs w r) :
      Begins c cs ⟨some .number, w, r⟩
  | name {c : Char} {w r : List Char} (hc : isLetter c = true) (hw : ∀ d ∈ w, isLetter d = true)
      (hr : ∀ d ∈ r.head?, isLetter d = false) : Begins c (w ++ r) ⟨some .identifier, w, r⟩
  | blank {c : Char} {w r : List Char} (hc : isBlank c = true) (hw : ∀ d ∈ w, isBlank d = true)
      (hr : ∀ d ∈ r.head?, isBlank d = false) : Begins c (w ++ r) ⟨none, w, r⟩
  | matMul {r : List Char} : Begins '*' ('*' :: r) ⟨some .matMul, ['*'], r⟩
  | symbol {c : Char} {r : List Char} {k : TokenKind} (hk : symbolKind? c = some k)
      (hstar : c = '*' → r.head? ≠ some '*') : Begins c r ⟨some k, [], r⟩

section Begins
variable {c : Char} {cs : List Char} {l : Lexeme}

/-- A lexeme ends before a character that would not go on with it: a number before one that is no
digit or point, a name before one that is no letter, a star before one that is no star. -/
theorem begins_of_lexeme? (h : lexeme? c cs = some l) : Begins c cs l := by
  have hall (p : Char → Bool) : ∀ d ∈ cs.takeWhile p, p d = true :=
    fun d hd => List.mem_takeWhile_imp hd
  unfold lexeme? at h
  split at h
  next hc =>
    cases h
    exact .number hc (numberShape cs)
  split at h
  next hc =>
    cases h
    have hname := Begins.name hc (hall isLetter) (head_dropWhile isLetter cs)
    rwa [List.takeWhile_append_dropWhile] at hname
  split at h
  next hc =>
    cases h
    have hblank := Begins.blank hc (hall isBlank) (head_dropWhile isBlank cs)
    rwa [List.takeWhile_append_dropWhile] at hblank
  split at h
  next hc =>
    cases h
    obtain ⟨rfl, hstar⟩ := hc
    cases cs with
    | nil => cases hstar
    | cons d cs =>
      cases hstar
      exact .matMul
  next hc =>
    obtain ⟨k, hk, rfl⟩ := Option.map_eq_some_iff.mp h
    exact .symbol hk fun he hs => hc ⟨he, hs⟩

theorem lexeme?_of_begins (h : Begins c cs l) : lexeme? c cs = some l := by
  cases h with
  | number hc hcs => simp [lexeme?, hc, numberTail_of_shape hcs]
  | name hc hw hr =>
    simp [lexeme?, not_isDigit_of_isLetter hc, hc, takeWhile_append_head hw hr,
      dropWhile_append_head hw hr]
  | blank hc hw hr =>
    rw [lexeme?_blank hc, takeWhile_append_head hw hr, dropWhile_append_head hw hr]
  | matMul => rfl
  | symbol hk hstar => exact lexeme?_symbol hk hstar

theorem Begins.unique {l' : Lexeme} (h : Begins c cs l) (h' : Begins c cs l') : l = l' :=
  Option.some.inj ((lexeme?_of_begins h).symm.trans (lexeme?_of_begins h'))

/-- Only the first character of a text can be refused: a point, or one that is in no token. -/
theorem lexeme?_eq_none_iff : lexeme? c cs = none ↔ c = '.' ∨ isUsed c = false := by
  by_cases hpoint : c = '.'
  · subst hpoint
    exact iff_of_true rfl (.inl rfl)
  unfold lexeme? isUsed
  split_ifs with hd hl hb hstar
  · simp [hd, hpoint]
  · simp [hl, hpoint]
  · simp [hb, hpoint]
  · simp [hstar.1, symbolKind?]
  · simp [hd, hl, hb, hpoint]

/-- A text begins the same way if it is cut off after its first lexeme. -/
theorem Begins.cut (h : Begins c cs l) {r : List Char} (hr : r <+: l.rest) :
    Begins c (l.tail ++ r) ⟨l.kind, l.tail, r⟩ := by
  have hhead {P : Char → Prop} (hP : ∀ d ∈ l.rest.head?, P d) : ∀ d ∈ r.head?, P d :=
    fun d hd => hP d (mem_head_of_cut hr hd)
  cases h with
  | number hc hcs =>
    refine .number hc ?_
    cases hcs with
    | whole hds hr' => exact .whole hds (hhead hr')
    | point hds hfs hr' =>
      rw [List.append_assoc, List.cons_append]
      exact .point hds hfs (hhead hr')
  | name hc hw hr' => exact .name hc hw (hhead hr')
  | blank hc hw hr' => exact .blank hc hw (hhead hr')
  | matMul => exact .matMul
  | symbol hk hstar => exact .symbol hk fun he hs => hstar he (mem_head_of_cut hr hs)

end Begins

end Token

namespace TokenKind
open Token Text

/-- The texts of the tokens of a kind. Which kind it is, the first character decides, or the first
two if they are stars. -/
def Fits : TokenKind → List Char → Prop
  | number, w => ∃ ds fs, ds ≠ [] ∧ (∀ c ∈ ds ++ fs, isDigit c = true) ∧
      (w = ds ∨ w = ds ++ '.' :: fs)
  | identifier, w => w ≠ [] ∧ ∀ c ∈ w, isLetter c = true
  | matMul, w => w = ['*', '*']
  | k, w => ∃ c, w = [c] ∧ symbolKind? c = some k

/-- No token is longer than `w` where `rest` follows it. -/
def Longest (w rest : List Char) : Prop :=
  ∀ v ≠ [], v <+: rest → ∀ k : TokenKind, ¬ k.Fits (w ++ v)

variable {c : Char} {w : List Char} {k : TokenKind}

theorem fits_symbol (hk : symbolKind? c = some k) : k.Fits [c] := by
  unfold symbolKind? at hk
  split at hk <;> cases hk <;> exact ⟨_, rfl, rfl⟩

/-- The text of a number begins with a digit and has at most one point and nothing else. -/
theorem Fits.number (h : TokenKind.number.Fits w) :
    (∃ c v, w = c :: v ∧ isDigit c = true) ∧ (∀ c ∈ w, isDigit c = true ∨ c = '.') ∧
      w.count '.' ≤ 1 := by
  obtain ⟨ds, fs, hne, hdigits, hw⟩ := h
  obtain ⟨hds, hfs⟩ := List.forall_mem_append.mp hdigits
  obtain ⟨c, ds, rfl⟩ := List.exists_cons_of_ne_nil hne
  have hcount {l : List Char} (hl : ∀ d ∈ l, isDigit d = true) : l.count '.' = 0 :=
    List.count_eq_zero.mpr fun hmem => by cases (hl '.' hmem).symm.trans not_isDigit_point
  rcases hw with rfl | rfl
  · exact ⟨⟨c, ds, rfl, hds c (by simp)⟩, fun d hd => .inl (hds d hd), by rw [hcount hds]; decide⟩
  · refine ⟨⟨c, _, rfl, hds c (by simp)⟩, ?_, ?_⟩
    · refine List.forall_mem_append.mpr ⟨fun d hd => .inl (hds d hd), ?_⟩
      exact List.forall_mem_cons.mpr ⟨.inr rfl, fun d hd => .inl (hfs d hd)⟩
    · rw [List.count_append, List.count_cons_self, hcount hds, hcount hfs]

theorem Fits.ne_nil (h : k.Fits w) : w ≠ [] := by
  cases k with
  | number =>
    obtain ⟨⟨c, v, rfl, -⟩, -⟩ := h.number
    exact List.cons_ne_nil c v
  | identifier => exact h.1
  | matMul => exact h ▸ List.cons_ne_nil _ _
  | _ =>
    obtain ⟨c, rfl, -⟩ := h
    exact List.cons_ne_nil c []

end TokenKind

namespace Token
open Text TokenKind

/-- After a number there is no digit, and no point if it has one already. -/
theorem NumberShape.stop {cs w r : List Char} (h : NumberShape cs w r) :
    ∀ d ∈ r.head?, isDigit d = false ∧ (d = '.' → '.' ∈ w) := by
  intro d hd
  cases h with
  | whole _ hr => exact ⟨(hr d hd).1, fun he => absurd he (hr d hd).2⟩
  | point _ _ hr => exact ⟨hr d hd, fun _ => by simp⟩

namespace Begins
variable {c : Char} {cs : List Char} {l : Lexeme} {k : TokenKind}

/-- A lexeme and the rest are all of the text. -/
theorem append_eq (h : Begins c cs l) : l.tail ++ l.rest = cs :=
  lexeme?_append (lexeme?_of_begins h)

theorem fits (h : Begins c cs l) (hk : l.kind = some k) : k.Fits (c :: l.tail) := by
  cases h with
  | number hc hcs =>
    cases hk
    cases hcs with
    | whole hds => exact ⟨_, [], List.cons_ne_nil _ _, by simpa [hc] using hds, .inl rfl⟩
    | point hds hfs =>
      refine ⟨_, _, List.cons_ne_nil _ _, ?_, .inr rfl⟩
      exact List.forall_mem_append.mpr ⟨List.forall_mem_cons.mpr ⟨hc, hds⟩, hfs⟩
  | name hc hw =>
    cases hk
    exact ⟨List.cons_ne_nil _ _, List.forall_mem_cons.mpr ⟨hc, hw⟩⟩
  | blank => cases hk
  | matMul =>
    cases hk
    rfl
  | symbol hsymbol =>
    cases hk
    exact fits_symbol hsymbol

theorem isBlank (h : Begins c cs l) (hk : l.kind = none) : ∀ d ∈ c :: l.tail, isBlank d = true := by
  cases h with
  | blank hc hw => exact List.forall_mem_cons.mpr ⟨hc, hw⟩
  | _ => cases hk

theorem stop_name (h : Begins c cs l) (hc : isLetter c = true) :
    ∀ d ∈ l.rest.head?, isLetter d = false := by
  have hl := lexeme?_of_begins h
  simp only [lexeme?, not_isDigit_of_isLetter hc, hc, Bool.false_eq_true, if_false, if_true] at hl
  cases hl
  exact head_dropWhile isLetter cs

/-- No token can be longer than it is. -/
theorem longest (h : Begins c cs l) : Longest (c :: l.tail) l.rest := by
  intro v hv hr k
  obtain ⟨d, v, rfl⟩ := List.exists_cons_of_ne_nil hv
  have hd : d ∈ l.rest.head? := mem_head_of_cut hr rfl
  have hlong {e : Char} : c :: l.tail ++ d :: v ≠ [e] := by simp
  have hmem : d ∈ c :: l.tail ++ d :: v := by simp
  intro hfits
  cases k with
  | number =>
    obtain ⟨⟨_, _, he, hc⟩, hall, hcount⟩ := hfits.number
    cases he
    have hnumber := h.unique (.number hc (numberShape cs))
    subst hnumber
    obtain ⟨hnot, hpoint⟩ := (numberShape cs).stop d hd
    rcases hall d hmem with hdigit | rfl
    · cases hdigit.symm.trans hnot
    · -- The point would be the second one.
      have hone := List.count_pos_iff.mpr (hpoint rfl)
      simp only [List.count_append, List.count_cons_self] at hcount
      have := List.count_le_count_cons (a := '.') (b := c) (l := (numberTail cs).1)
      omega
  | identifier =>
    have hc := hfits.2 c (by simp)
    cases (hfits.2 d hmem).symm.trans (h.stop_name hc d hd)
  | matMul =>
    obtain ⟨rfl, hrest⟩ := List.cons.inj hfits
    obtain ⟨hnil, hstar⟩ := List.append_eq_cons_iff.mp hrest |>.resolve_right (by simp)
    cases hstar
    obtain ⟨r, rfl⟩ : ∃ r, cs = '*' :: r := by
      rw [← h.append_eq, hnil]
      exact List.head?_eq_some_iff.mp hd
    cases hnil.symm.trans (congrArg Lexeme.tail (h.unique .matMul))
  | _ =>
    obtain ⟨e, he, -⟩ := hfits
    exact hlong he

end Begins
end Token

end Reckoner
