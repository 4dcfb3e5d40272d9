import Mathlib
import Reckoner.Proofs.Lexing.Shape

namespace Reckoner.Token
open Text TokenKind

/-- The tokens laid out in a text from the place `pos` on, with blanks before, between and after
them. No token could be longer. -/
inductive Laid : Nat → List Char → List Token → Prop where
  | nil {pos : Nat} {gap : List Char} (hgap : ∀ c ∈ gap, isBlank c = true) : Laid pos gap []
  | cons {pos : Nat} {gap rest : List Char} {t : Token} {ts : List Token}
      (hgap : ∀ c ∈ gap, isBlank c = true) (hpos : t.pos = pos + gap.length)
      (hfits : t.kind.Fits t.text.toList)
      (hlong : Longest t.text.toList rest)
      (h : Laid (t.pos + t.text.toList.length) rest ts) :
      Laid pos (gap ++ (t.text.toList ++ rest)) (t :: ts)

theorem fits_digit {w : List Char} {d : Char} (h : TokenKind.number.Fits w)
    (hd : isDigit d = true) : TokenKind.number.Fits (w ++ [d]) := by
  obtain ⟨ds, fs, hne, hdigits, hw⟩ := h
  obtain ⟨hds, hfs⟩ := List.forall_mem_append.mp hdigits
  have hconcat {l : List Char} (hl : ∀ c ∈ l, isDigit c = true) :
      ∀ c ∈ l ++ [d], isDigit c = true :=
    List.forall_mem_append.mpr ⟨hl, List.forall_mem_singleton.mpr hd⟩
  rcases hw with rfl | rfl
  · exact ⟨w ++ [d], [], by simp, by simpa using hconcat hds, .inl rfl⟩
  · exact ⟨ds, fs ++ [d], hne, List.forall_mem_append.mpr ⟨hds, hconcat hfs⟩, .inr (by simp)⟩

/-- What fits a kind and could not be longer is what a text begins with. -/
theorem begins_of_fits {k : TokenKind} {w r : List Char} (hfits : k.Fits w)
    (hlong : Longest w r) : ∃ c tail, w = c :: tail ∧ Begins c (tail ++ r) ⟨some k, tail, r⟩ := by
  have hnext : ∀ d ∈ r.head?, ∀ k : TokenKind, ¬ k.Fits (w ++ [d]) := by
    intro d hd
    obtain ⟨r, rfl⟩ := List.head?_eq_some_iff.mp hd
    exact hlong [d] (List.cons_ne_nil d []) ⟨r, rfl⟩
  cases k with
  | number =>
    have hdigit : ∀ d ∈ r.head?, isDigit d = false := fun d hd =>
      Bool.eq_false_iff.mpr fun h => hnext d hd .number (fits_digit hfits h)
    obtain ⟨ds, fs, hne, hdigits, hw⟩ := hfits
    obtain ⟨c, ds, rfl⟩ := List.exists_cons_of_ne_nil hne
    obtain ⟨hds, hfs⟩ := List.forall_mem_append.mp hdigits
    obtain ⟨hc, htail⟩ := List.forall_mem_cons.mp hds
    rcases hw with rfl | rfl
    · refine ⟨c, ds, rfl, .number hc (.whole htail fun d hd => ⟨hdigit d hd, ?_⟩)⟩
      rintro rfl
      exact hnext '.' hd .number ⟨c :: ds, [], hne, by rwa [List.append_nil], .inr rfl⟩
    · refine ⟨c, ds ++ '.' :: fs, rfl, ?_⟩
      rw [List.append_assoc, List.cons_append]
      exact .number hc (.point htail hfs hdigit)
  | identifier =>
    obtain ⟨hne, hletters⟩ := hfits
    obtain ⟨c, w, rfl⟩ := List.exists_cons_of_ne_nil hne
    obtain ⟨hc, hw⟩ := List.forall_mem_cons.mp hletters
    refine ⟨c, w, rfl, .name hc hw fun d hd => Bool.eq_false_iff.mpr fun h => ?_⟩
    exact hnext d hd .identifier
      ⟨by simp, List.forall_mem_append.mpr ⟨hletters, List.forall_mem_singleton.mpr h⟩⟩
  | matMul =>
    subst hfits
    exact ⟨'*', ['*'], rfl, .matMul⟩
  | _ =>
    obtain ⟨c, rfl, hk⟩ := hfits
    refine ⟨c, [], rfl, .symbol hk fun he hstar => ?_⟩
    subst he
    exact hnext '*' hstar .matMul rfl

/-- Blanks in front only move the tokens. -/
theorem Laid.blanks {pos : Nat} {gap cs : List Char} {ts : List Token}
    (hgap : ∀ c ∈ gap, isBlank c = true) (h : Laid (pos + gap.length) cs ts) :
    Laid pos (gap ++ cs) ts := by
  cases h with
  | nil hgap' => exact .nil (List.forall_mem_append.mpr ⟨hgap, hgap'⟩)
  | @cons _ gap' rest t ts hgap' hpos hfits hlong h =>
    rw [← List.append_assoc]
    refine .cons (List.forall_mem_append.mpr ⟨hgap, hgap'⟩) ?_ hfits hlong h
    rw [hpos, List.length_append, Nat.add_assoc]

theorem laid_of_lexFrom {pos : Nat} {cs : List Char} {ts : List Token}
    (h : lexFrom pos cs = .ok ts) : Laid pos cs ts := by
  fun_induction lexFrom pos cs generalizing ts with
  | case1 =>
    cases h
    exact .nil (List.forall_mem_nil _)
  | case2 => cases h
  | case3 => cases h
  | case4 pos c cs l hl us hus hk ih =>
    cases h
    have hbegins := begins_of_lexeme? hl
    rw [← hbegins.append_eq, ← List.cons_append]
    refine Laid.blanks (hbegins.isBlank hk) ?_
    rw [List.length_cons, Nat.add_comm l.tail.length, ← Nat.add_assoc]
    exact ih hus
  | case5 pos c cs l hl us hus k hk ih =>
    cases h
    have hbegins := begins_of_lexeme? hl
    have htext : (String.ofList (c :: l.tail)).toList = c :: l.tail := String.toList_ofList
    have hlaid := @Laid.cons pos [] l.rest ⟨k, String.ofList (c :: l.tail), pos⟩ us
      (List.forall_mem_nil _) rfl
    rw [htext, List.length_cons, Nat.add_comm l.tail.length, ← Nat.add_assoc, List.nil_append,
      List.cons_append, hbegins.append_eq] at hlaid
    exact hlaid (hbegins.fits hk) hbegins.longest (ih hus)

theorem lexFrom_of_laid {pos : Nat} {cs : List Char} {ts : List Token} (h : Laid pos cs ts) :
    lexFrom pos cs = .ok ts := by
  induction h with
  | @nil pos gap hgap => rw [← List.append_nil gap, lexFrom_blanks hgap, lexFrom]
  | @cons pos gap rest t ts hgap hpos hfits hlong _ ih =>
    obtain ⟨c, tail, htext, hbegins⟩ := begins_of_fits hfits hlong
    have htokens : Lexeme.tokens ⟨some t.kind, tail, rest⟩ c t.pos = [t] := by
      rw [Lexeme.tokens, ← htext, String.ofList_toList]
    rw [htext, List.length_cons, Nat.add_comm tail.length, ← Nat.add_assoc] at ih
    rw [lexFrom_blanks hgap, ← hpos, htext, List.cons_append,
      lexFrom_cons (lexeme?_of_begins hbegins), ih, htokens]
    rfl

/-- The tokens of a text are those that are laid out in it. -/
theorem lexFrom_eq_ok_iff {pos : Nat} {cs : List Char} {ts : List Token} :
    lexFrom pos cs = .ok ts ↔ Laid pos cs ts :=
  ⟨laid_of_lexFrom, lexFrom_of_laid⟩

namespace Laid
variable {pos : Nat} {cs : List Char} {ts : List Token}

theorem le_pos (h : Laid pos cs ts) : ∀ t ∈ ts, pos ≤ t.pos := by
  induction h with
  | nil => exact List.forall_mem_nil _
  | cons _ hpos _ _ _ ih =>
    exact List.forall_mem_cons.mpr ⟨by omega, fun u hu => by have := ih u hu; omega⟩

/-- The places of tokens increase. -/
theorem increasing (h : Laid pos cs ts) : ts.Pairwise (·.pos < ·.pos) := by
  induction h with
  | nil => exact .nil
  | cons _ _ hfits _ h ih =>
    refine .cons (fun u hu => ?_) ih
    have hnonempty := List.length_pos_iff.mpr hfits.ne_nil
    have := h.le_pos u hu
    omega

/-- Each token stands in the text at its place. -/
theorem stands (h : Laid pos cs ts) : ∀ t ∈ ts, t.kind.Fits t.text.toList ∧
    ∃ rest, cs.drop (t.pos - pos) = t.text.toList ++ rest ∧ Longest t.text.toList rest := by
  induction h with
  | nil => exact List.forall_mem_nil _
  | @cons pos gap rest t ts hgap hpos hfits hlong h ih =>
    refine List.forall_mem_cons.mpr ⟨⟨hfits, rest, ?_, hlong⟩, fun u hu => ?_⟩
    · rw [hpos, Nat.add_sub_cancel_left, List.drop_left]
    · obtain ⟨hufits, r, hdrop, hulong⟩ := ih u hu
      refine ⟨hufits, r, ?_, hulong⟩
      have hle := h.le_pos u hu
      have hsplit : u.pos - pos = (gap ++ t.text.toList).length
          + (u.pos - (t.pos + t.text.toList.length)) := by
        rw [List.length_append]
        omega
      rw [hsplit, ← List.append_assoc, List.drop_length_add_append, hdrop]

end Laid

section Admissible
variable {c : Char} {cs w r : List Char} {l : Lexeme}

def isNumeric (c : Char) : Bool :=
  isDigit c || c == '.'

def numericRuns (cs : List Char) : List (List Char) :=
  (cs.splitOnP (fun c => !isNumeric c)).filter (fun run => !run.isEmpty)

/-- A text of characters in use, where each run of digits and points begins with a digit and has at
most one point. -/
def Admissible (cs : List Char) : Prop :=
  (∀ c ∈ cs, isUsed c = true) ∧
    ∀ run ∈ numericRuns cs, (∀ c ∈ run.head?, isDigit c = true) ∧ run.count '.' ≤ 1

theorem numericRuns_skip (hw : ∀ c ∈ w, isNumeric c = false) (r : List Char) :
    numericRuns (w ++ r) = numericRuns r := by
  induction w with
  | nil => rfl
  | cons c w ih =>
    obtain ⟨hc, htail⟩ := List.forall_mem_cons.mp hw
    rw [← ih htail]
    simp [numericRuns, List.splitOnP_cons_eq_if_modifyHead, hc]

/-- A run ends where no digit and no point follows. -/
theorem numericRuns_append (hne : w ≠ []) (hw : ∀ c ∈ w, isNumeric c = true)
    (hr : ∀ d ∈ r.head?, isNumeric d = false) : numericRuns (w ++ r) = w :: numericRuns r := by
  have hw' : ∀ c ∈ w, (!isNumeric c) = false := fun c hc => by rw [hw c hc, Bool.not_true]
  cases r with
  | nil => simp [numericRuns, List.splitOnP_eq_singleton hw', List.splitOnP_nil, hne]
  | cons d r =>
    have hd := hr d rfl
    have hskip := numericRuns_skip (List.forall_mem_singleton.mpr hd) r
    rw [List.singleton_append] at hskip
    rw [hskip]
    simp [numericRuns, List.splitOnP_append_cons_of_forall_mem hw' d (by rw [hd]; rfl) r, hne]

/-- The first run of a text that begins with digits and points goes on as long as it can. -/
theorem mem_numericRuns (hne : w ≠ []) (hw : ∀ c ∈ w, isNumeric c = true) (r : List Char) :
    w ++ r.takeWhile isNumeric ∈ numericRuns (w ++ r) := by
  have hall : ∀ c ∈ w ++ r.takeWhile isNumeric, isNumeric c = true :=
    List.forall_mem_append.mpr ⟨hw, fun c hc => List.mem_takeWhile_imp hc⟩
  have hrun := numericRuns_append (List.append_ne_nil_of_left_ne_nil hne _) hall
    (head_dropWhile isNumeric r)
  rw [List.append_assoc, List.takeWhile_append_dropWhile] at hrun
  rw [hrun]
  exact List.mem_cons_self

theorem not_admissible_point (r : List Char) : ¬ Admissible ('.' :: r) := by
  intro h
  have hmem := mem_numericRuns (List.cons_ne_nil '.' []) (by simp [isNumeric]) r
  cases ((h.2 _ hmem).1 '.' rfl).symm.trans not_isDigit_point

/-- A text that cannot be taken apart at its beginning is not admissible. -/
theorem not_admissible_of_lexeme? (h : lexeme? c cs = none) : ¬ Admissible (c :: cs) := by
  rcases lexeme?_eq_none_iff.mp h with rfl | hc
  · exact not_admissible_point cs
  · intro hadm
    cases (hadm.1 c List.mem_cons_self).symm.trans hc

theorem Begins.not_isNumeric (h : Begins c cs l) (hk : l.kind ≠ some .number) :
    ∀ d ∈ c :: l.tail, isNumeric d = false := by
  have hclass {p : Char → Bool} (hpoint : p '.' = false)
      (hp : ∀ {d}, p d = true → isDigit d = false) : ∀ d, p d = true → isNumeric d = false := by
    intro d hd
    have hne : d ≠ '.' := by
      rintro rfl
      cases hd.symm.trans hpoint
    simp [isNumeric, hp hd, hne]
  cases h with
  | number => exact absurd rfl hk
  | name hc hw =>
    have hletter := hclass (p := isLetter) (by decide) not_isDigit_of_isLetter
    exact List.forall_mem_cons.mpr ⟨hletter c hc, fun d hd => hletter d (hw d hd)⟩
  | blank hc hw =>
    have hblank := hclass (p := Text.isBlank) (by decide) not_isDigit_of_isBlank
    exact List.forall_mem_cons.mpr ⟨hblank c hc, fun d hd => hblank d (hw d hd)⟩
  | matMul => exact List.forall_mem_cons.mpr ⟨rfl, List.forall_mem_singleton.mpr rfl⟩
  | symbol hsymbol =>
    refine List.forall_mem_singleton.mpr ?_
    unfold symbolKind? at hsymbol
    split at hsymbol
    all_goals first | decide | cases hsymbol

/-- A number at the beginning of a text is a whole run, or a second point follows. -/
theorem Begins.admissible_number (h : Begins c cs l) (hk : l.kind = some .number)
    (hused : ∀ d ∈ c :: l.tail, isUsed d = true) :
    Admissible (c :: l.tail ++ l.rest) ↔ Admissible l.rest := by
  obtain ⟨⟨_, _, he, hc⟩, hall, hcount⟩ := (h.fits hk).number
  cases he
  have hnumeric : ∀ d ∈ c :: l.tail, isNumeric d = true := by
    intro d hd
    rcases hall d hd with hdigit | rfl
    · simp [isNumeric, hdigit]
    · simp [isNumeric]
  by_cases hstop : ∀ d ∈ l.rest.head?, isNumeric d = false
  · have hrun : (∀ d ∈ (c :: l.tail).head?, isDigit d = true) ∧ (c :: l.tail).count '.' ≤ 1 :=
      ⟨fun d hd => Option.some.inj hd ▸ hc, hcount⟩
    rw [Admissible, numericRuns_append (List.cons_ne_nil _ _) hnumeric hstop,
      List.forall_mem_append, List.forall_mem_cons (l := numericRuns l.rest)]
    exact and_congr (and_iff_right hused) (and_iff_right hrun)
  · push Not at hstop
    obtain ⟨d, hd, hdnumeric⟩ := hstop
    rw [Bool.ne_false_iff] at hdnumeric
    obtain ⟨r, hr⟩ := List.head?_eq_some_iff.mp hd
    have hnumber := h.unique (.number hc (numberShape cs))
    obtain ⟨hnot, hsecond⟩ := (numberShape cs).stop d (by rw [hnumber] at hd; exact hd)
    have hpoint : d = '.' := by simpa [isNumeric, hnot] using hdnumeric
    subst hpoint
    rw [hr]
    refine iff_of_false (fun hadm => ?_) (not_admissible_point r)
    have hmem := mem_numericRuns (List.cons_ne_nil c l.tail) hnumeric ('.' :: r)
    have htwo := (hadm.2 _ hmem).2
    have hone : 0 < l.tail.count '.' := List.count_pos_iff.mpr (by rw [hnumber]; exact hsecond rfl)
    rw [List.takeWhile_cons_of_pos hdnumeric, List.count_append, List.count_cons_self] at htwo
    have := List.count_le_count_cons (a := '.') (b := c) (l := l.tail)
    omega

/-- Whether a text is admissible does not depend on its first lexeme. -/
theorem Begins.admissible_iff (h : Begins c cs l) : Admissible (c :: cs) ↔ Admissible l.rest := by
  have hused := isUsed_lexeme? (lexeme?_of_begins h)
  rw [← h.append_eq, ← List.cons_append]
  by_cases hk : l.kind = some .number
  · exact h.admissible_number hk hused
  · simp only [Admissible, numericRuns_skip (h.not_isNumeric hk), List.forall_mem_append]
    exact and_congr_left fun _ => and_iff_right hused

/-- A text has tokens if it is admissible. -/
theorem exists_lexFrom_iff (pos : Nat) (cs : List Char) :
    (∃ ts, lexFrom pos cs = .ok ts) ↔ Admissible cs := by
  fun_induction lexFrom pos cs with
  | case1 =>
    exact iff_of_true ⟨[], rfl⟩ ⟨List.forall_mem_nil _, by simp [numericRuns, List.splitOnP_nil]⟩
  | case2 pos c cs hl =>
    refine iff_of_false ?_ (not_admissible_of_lexeme? hl)
    rintro ⟨ts, h⟩
    cases h
  | case3 pos c cs l hl e he ih => rw [(begins_of_lexeme? hl).admissible_iff, ← ih, he]
  | case4 pos c cs l hl us hus hk ih | case5 pos c cs l hl us hus k hk ih =>
    have hrest := ih.mp ⟨us, hus⟩
    exact iff_of_true ⟨_, rfl⟩ ((begins_of_lexeme? hl).admissible_iff.mpr hrest)

/-- A text is refused at the first character after its longest part that is admissible. -/
theorem lexFrom_error {pos : Nat} {e : SyntaxError} (h : lexFrom pos cs = .error e) :
    ∃ pre c rest, cs = pre ++ c :: rest ∧ e = .unexpectedCharacter c (pos + pre.length) ∧
      Admissible pre ∧ ∀ q, q <+: cs → pre.length < q.length → ¬ Admissible q := by
  fun_induction lexFrom pos cs with
  | case1 => cases h
  | case2 pos c cs hl =>
    cases h
    have hnil := (exists_lexFrom_iff 0 []).mp ⟨[], by rw [lexFrom]⟩
    refine ⟨[], c, cs, rfl, rfl, hnil, fun q hq hlen => ?_⟩
    obtain ⟨d, q, rfl⟩ := List.exists_cons_of_length_pos hlen
    obtain ⟨rfl, -⟩ := List.cons_prefix_cons.mp hq
    exact not_admissible_of_lexeme? (lexeme?_eq_none_iff.mpr (lexeme?_eq_none_iff.mp hl))
  | case3 pos c cs l hl e' he ih =>
    cases h
    have hbegins := begins_of_lexeme? hl
    obtain ⟨pre, d, rest, hrest, rfl, hpre, hlongest⟩ := ih he
    refine ⟨c :: (l.tail ++ pre), d, rest, ?_, ?_, ?_, fun q hq hlen => ?_⟩
    · rw [← hbegins.append_eq, hrest, List.cons_append, List.append_assoc]
    · rw [List.length_cons, List.length_append]
      congr 1
      omega
    · exact (hbegins.cut ⟨d :: rest, hrest.symm⟩).admissible_iff.mpr hpre
    · -- A longer part begins with the same lexeme, so that the rest of it is longer too.
      obtain ⟨q', rfl⟩ : c :: l.tail <+: q := by
        refine List.prefix_of_prefix_length_le ?_ hq (by simp at hlen ⊢; omega)
        rw [← hbegins.append_eq]
        exact ⟨l.rest, rfl⟩
      have hq' : q' <+: l.rest := by
        rw [← hbegins.append_eq, ← List.cons_append] at hq
        exact (List.prefix_append_right_inj _).mp hq
      rw [List.cons_append, (hbegins.cut hq').admissible_iff]
      refine hlongest q' hq' ?_
      simp at hlen
      omega
  | case4 => cases h
  | case5 => cases h

end Admissible

/-- A line has tokens if it is admissible. They are those laid out in it: in order, each of them at
its place and none of them too short. A line without tokens is refused at the end of its longest
part that has some. -/
theorem lex_exact (line : String) :
    ((∃ ts, lex line = .ok ts) ↔ Admissible line.toList) ∧
      (∀ ts, lex line = .ok ts ↔ Laid 0 line.toList ts) ∧
      (∀ ts, lex line = .ok ts → ts.Pairwise (·.pos < ·.pos) ∧
        ∀ t ∈ ts, t.kind.Fits t.text.toList ∧ t.text.toList <+: line.toList.drop t.pos ∧
          ∀ v ≠ [], t.text.toList ++ v <+: line.toList.drop t.pos →
            ∀ k : TokenKind, ¬ k.Fits (t.text.toList ++ v)) ∧
      ∀ e, lex line = .error e → ∃ c p, e = .unexpectedCharacter c p ∧ line.toList[p]? = some c ∧
        IsGreatest {n | n ≤ line.toList.length ∧
          ∃ ts, lex (String.ofList (line.toList.take n)) = .ok ts} p := by
  refine ⟨exists_lexFrom_iff 0 line.toList, fun ts => lexFrom_eq_ok_iff, fun ts hts => ?_,
    fun e he => ?_⟩
  · have hlaid := lexFrom_eq_ok_iff.mp hts
    refine ⟨hlaid.increasing, fun t ht => ?_⟩
    obtain ⟨hfits, rest, hdrop, hlong⟩ := hlaid.stands t ht
    rw [Nat.sub_zero] at hdrop
    rw [hdrop]
    exact ⟨hfits, List.prefix_append _ _,
      fun v hv hpre => hlong v hv ((List.prefix_append_right_inj _).mp hpre)⟩
  · obtain ⟨pre, c, rest, hline, rfl, hpre, hlongest⟩ := lexFrom_error he
    have hlexes (cs : List Char) : (∃ ts, lex (String.ofList cs) = .ok ts) ↔ Admissible cs := by
      rw [lex, String.toList_ofList]
      exact exists_lexFrom_iff 0 cs
    refine ⟨c, 0 + pre.length, rfl, ?_, ?_, fun n hn => ?_⟩
    · simp [hline]
    · simp [hline, hlexes, hpre]
    · obtain ⟨hle, hok⟩ := hn
      by_contra hlt
      refine hlongest _ ⟨_, List.take_append_drop n line.toList⟩ ?_ ((hlexes _).mp hok)
      rw [List.length_take]
      omega

/-- A point after a number belongs to it; a second one is refused. -/
theorem lex_exact_points :
    Laid 0 "2. **xy".toList [⟨.number, "2.", 0⟩, ⟨.matMul, "**", 3⟩, ⟨.identifier, "xy", 5⟩] ∧
      ¬ Admissible "x = 1.2.3".toList ∧
      IsGreatest {n | n ≤ 9 ∧
        ∃ ts, lex (String.ofList ("x = 1.2.3".toList.take n)) = .ok ts} 7 := by
  have hrefused : lex "x = 1.2.3" = .error (.unexpectedCharacter '.' 7) := by cbv
  obtain ⟨hadm, -, -, herror⟩ := lex_exact "x = 1.2.3"
  refine ⟨((lex_exact "2. **xy").2.1 _).mp (by cbv), ?_, ?_⟩
  · intro h
    obtain ⟨ts, hts⟩ := hadm.mpr h
    cases hrefused.symm.trans hts
  · obtain ⟨c, p, he, -, hgreatest⟩ := herror _ hrefused
    cases he
    exact hgreatest

end Reckoner.Token
