import Mathlib
import Reckoner.Proofs.Grammar.Alike
import Reckoner.Proofs.Recasing.Letters
import Reckoner.Proofs.Written

namespace Reckoner
open Text Outcome

namespace Token

def small (t : Token) : Token :=
  { t with text := t.text.toLower }

def Lexeme.small (l : Lexeme) : Lexeme :=
  ⟨l.kind, l.tail.map Char.toLower, l.rest.map Char.toLower⟩

theorem symbolKind?_toLower (c : Char) : symbolKind? c.toLower = symbolKind? c := by
  refine toLower_congr (a := none) (fun c hc => ?_) c
  unfold symbolKind?
  split <;> first | rfl | exact absurd hc (by decide)

theorem numberTail_map_toLower (cs : List Char) :
    numberTail (cs.map Char.toLower) =
      ((numberTail cs).1.map Char.toLower, (numberTail cs).2.map Char.toLower) := by
  simp only [numberTail, takeWhile_map_toLower isDigit_toLower,
    dropWhile_map_toLower isDigit_toLower]
  cases cs.dropWhile isDigit with
  | nil => rfl
  | cons c rest =>
    by_cases hpoint : c = '.'
    · subst hpoint
      have hpoint : Char.toLower '.' = '.' := rfl
      simp [hpoint, takeWhile_map_toLower isDigit_toLower, dropWhile_map_toLower isDigit_toLower]
    · have hpoint' : c.toLower ≠ '.' := fun h => hpoint ((toLower_eq_iff (by decide) c).mp h)
      simp [hpoint, hpoint']

/-- Case decides neither where a lexeme ends nor of which kind it is. -/
theorem lexeme?_toLower (c : Char) (cs : List Char) :
    lexeme? c.toLower (cs.map Char.toLower) = (lexeme? c cs).map Lexeme.small := by
  have hstar : (c.toLower = '*' ∧ (cs.map Char.toLower).head? = some '*') ↔
      (c = '*' ∧ cs.head? = some '*') := by
    simp [toLower_eq_iff (d := '*') (by decide)]
  simp only [lexeme?, isDigit_toLower, isLetter_toLower_eq, isBlank_toLower, symbolKind?_toLower,
    numberTail_map_toLower, takeWhile_map_toLower isLetter_toLower_eq,
    dropWhile_map_toLower isLetter_toLower_eq, takeWhile_map_toLower isBlank_toLower,
    dropWhile_map_toLower isBlank_toLower, hstar]
  split
  · rfl
  split
  · rfl
  split
  · rfl
  split
  · simp [Lexeme.small]
  · cases symbolKind? c <;> rfl

theorem lexFrom_none {c : Char} {cs : List Char} (h : lexeme? c cs = none) (pos : Nat) :
    lexFrom pos (c :: cs) = .error (.unexpectedCharacter c pos) := by
  rw [lexFrom]
  split
  · rfl
  next hl => cases hl.symm.trans h

/-- Only a character that is no letter is refused, so the error is the same. -/
theorem not_isLetter_of_lexeme? {c : Char} {cs : List Char} (h : lexeme? c cs = none) :
    isLetter c = false := by
  refine Bool.eq_false_iff.mpr fun hc => ?_
  simp [lexeme?, hc, not_isDigit_of_isLetter hc] at h

theorem Lexeme.tokens_small (l : Lexeme) (c : Char) (pos : Nat) :
    l.small.tokens c.toLower pos = (l.tokens c pos).map Token.small := by
  simp only [Lexeme.tokens, Lexeme.small]
  cases l.kind with
  | none => rfl
  | some k => simp only [List.map_cons, List.map_nil, Token.small, toLower_ofList]

/-- A text in small letters has the same tokens in small letters. -/
theorem lexFrom_toLower (pos : Nat) (cs : List Char) :
    lexFrom pos (cs.map Char.toLower) = List.map small <$> lexFrom pos cs := by
  induction hn : cs.length using Nat.strong_induction_on generalizing pos cs with
  | _ n ih =>
  subst hn
  cases cs with
  | nil => simp [lexFrom]
  | cons c cs =>
    cases hl : lexeme? c cs with
    | none =>
      have hsmall : lexeme? c.toLower (cs.map Char.toLower) = none := by
        rw [lexeme?_toLower, hl, Option.map_none]
      rw [List.map_cons, lexFrom_none hsmall, lexFrom_none hl,
        toLower_of_not_isLetter (not_isLetter_of_lexeme? hl)]
      rfl
    | some l =>
      have hsmall : lexeme? c.toLower (cs.map Char.toLower) = some l.small := by
        rw [lexeme?_toLower, hl, Option.map_some]
      have hrest := ih l.rest.length (Nat.lt_succ_of_le (length_rest_le hl))
        (pos + 1 + l.tail.length) l.rest rfl
      rw [List.map_cons, lexFrom_cons hsmall, lexFrom_cons hl, Lexeme.tokens_small]
      simp only [Lexeme.small, List.length_map, hrest]
      cases lexFrom (pos + 1 + l.tail.length) l.rest with
      | error e => rfl
      | ok ts => simp only [map_ok, List.map_append]

theorem lex_toLower (line : String) : lex line.toLower = List.map small <$> lex line := by
  rw [lex, toList_toLower, lexFrom_toLower, lex]

theorem not_isLetter_of_isDigit {c : Char} (h : isDigit c = true) : isLetter c = false := by
  refine Bool.eq_false_iff.mpr fun hl => ?_
  rw [not_isDigit_of_isLetter hl] at h
  cases h

theorem not_isLetter_numberTail {cs : List Char} {d : Char} (hd : d ∈ (numberTail cs).1) :
    isLetter d = false := by
  have hdigit {l : List Char} (h : d ∈ l.takeWhile isDigit) : isLetter d = false :=
    not_isLetter_of_isDigit (List.mem_takeWhile_imp h)
  unfold numberTail at hd
  dsimp only at hd
  split at hd
  · simp only [List.mem_append, List.mem_cons] at hd
    rcases hd with hd | rfl | hd
    · exact hdigit hd
    · decide
    · exact hdigit hd
  · exact hdigit hd

/-- There are no letters in a numeral. -/
theorem IsNumeral.toLower_eq {t : String} (h : IsNumeral t.toList) : t.toLower = t := by
  have hletters : ∀ d ∈ t.toList, isLetter d = false := by
    generalize t.toList = cs at h
    cases h with
    | @mk c cs hc hcs =>
      intro d hd
      rcases List.mem_cons.mp hd with rfl | hd
      · exact not_isLetter_of_isDigit hc
      · have htail : d ∈ (numberTail cs).1 := by rwa [hcs]
        exact not_isLetter_numberTail htail
  rw [← String.toList_inj, toList_toLower]
  refine (List.map_congr_left fun d hd => ?_).trans (List.map_id _)
  exact toLower_of_not_isLetter (hletters d hd)

end Token

/-- Names that differ in case only, the imaginary unit apart. -/
def SameName (x x' : String) : Prop :=
  Recased x x' ∧ (x' = "i" ↔ x = "i")

theorem keepsUnit_sameName : Grammar.KeepsUnit SameName :=
  ⟨fun h => h.2, fun h => by rw [h.1.lower_eq]⟩

namespace Session
open Token (lex)

def identifiers (line : String) : List String :=
  match lex (trim line) with
  | .ok ts => (ts.filter (·.kind = .identifier)).map Token.text
  | .error _ => []

/-- Lines that differ in the case of letters only, and have the imaginary unit in the same
places. -/
structure Recased (line line' : String) : Prop where
  letters : Text.Recased line line'
  units : (identifiers line).map (· == "i") = (identifiers line').map (· == "i")

theorem Recased.symm {line line' : String} (h : Recased line line') : Recased line' line :=
  ⟨h.letters.symm, h.units.symm⟩

theorem forall₂_alike {ts us : List Token} (hts : ∀ t ∈ ts, t.IsLexical)
    (hus : ∀ u ∈ us, u.IsLexical) (hsmall : us.map Token.small = ts.map Token.small)
    (hunits : ((ts.filter (·.kind = .identifier)).map Token.text).map (· == "i") =
      ((us.filter (·.kind = .identifier)).map Token.text).map (· == "i")) :
    List.Forall₂ (Token.Alike SameName) ts us := by
  induction ts generalizing us with
  | nil =>
    cases List.map_eq_nil_iff.mp hsmall
    exact .nil
  | cons t ts ih =>
    obtain ⟨u, us, rfl, hu, htail⟩ := List.map_eq_cons_iff.mp hsmall
    obtain ⟨ht, hts⟩ := List.forall_mem_cons.mp hts
    obtain ⟨hlexical, hus⟩ := List.forall_mem_cons.mp hus
    obtain ⟨hkind, htext, -⟩ :
        u.kind = t.kind ∧ u.text.toLower = t.text.toLower ∧ u.pos = t.pos := by
      simpa only [Token.small, Token.mk.injEq] using hu
    have hnumeral (hk : t.kind = .number) : u.text = t.text := by
      rw [← (ht.numeral hk).toLower_eq, ← htext, (hlexical.numeral (hkind.trans hk)).toLower_eq]
    by_cases hk : t.kind = .identifier
    · have hk' : u.kind = .identifier := hkind.trans hk
      simp only [List.filter_cons, hk, hk', decide_true, if_true, List.map_cons, List.cons.injEq,
        beq_eq_beq] at hunits
      exact .cons ⟨hkind, fun _ => ⟨htext.symm, hunits.1.symm⟩, hnumeral⟩
        (ih hts hus htail hunits.2)
    · have hk' : u.kind ≠ .identifier := fun he => hk (hkind.symm.trans he)
      simp only [List.filter_cons, hk, hk', decide_false, Bool.false_eq_true, if_false] at hunits
      exact .cons ⟨hkind, fun he => absurd he hk, hnumeral⟩ (ih hts hus htail hunits)

/-- The tokens of recased lines are alike. -/
theorem Recased.lex {line line' : String} (h : Recased line line') {ts : List Token}
    (hts : lex (trim line) = .ok ts) :
    ∃ us, lex (trim line') = .ok us ∧ List.Forall₂ (Token.Alike SameName) ts us := by
  have hsmall : List.map Token.small <$> Token.lex (trim line') =
      List.map Token.small <$> Token.lex (trim line) := by
    rw [← Token.lex_toLower, ← Token.lex_toLower, h.letters.trim]
  rw [hts, map_ok, map_eq_ok] at hsmall
  obtain ⟨us, hus, hsmall⟩ := hsmall
  refine ⟨us, hus, ?_⟩
  refine forall₂_alike (Token.isLexical_lexFrom hts) (Token.isLexical_lexFrom hus) hsmall ?_
  simpa only [identifiers, hts, hus] using h.units

/-- Lines that differ in the case of identifiers only have the same tokens but for the names, and
make the same statements but for the names. -/
theorem Recased.read_some {line line' : String} (h : Recased line line') {st : Statement}
    (hst : read (trim line) = .ok (some st)) :
    ∃ st', read (trim line') = .ok (some st') ∧ st.Alike SameName st' := by
  obtain ⟨ts, hts, hp⟩ := read_eq_ok.mp hst
  obtain ⟨us, hus, halike⟩ := h.lex hts
  obtain ⟨st', hp', hst'⟩ := Grammar.parse_alike keepsUnit_sameName halike hp
  exact ⟨st', read_eq_ok.mpr ⟨us, hus, hp'⟩, hst'⟩

theorem Recased.read_none {line line' : String} (h : Recased line line')
    (hnone : read (trim line) = .ok none) : read (trim line') = .ok none := by
  obtain ⟨ts, hts, hp⟩ := read_eq_ok.mp hnone
  obtain ⟨us, hus, halike⟩ := h.lex hts
  cases Grammar.parse_eq_none.mp hp
  cases halike
  exact read_eq_ok.mpr ⟨[], hus, rfl⟩

/-- Recased lines make statements that differ in the case of names only, or both make none. -/
theorem read_recased {line line' : String} (h : Recased line line') :
    Accord (Option.Rel (Statement.Alike SameName)) (read (trim line)) (read (trim line')) := by
  cases hst : read (trim line) with
  | ok o =>
    cases o with
    | none =>
      rw [h.read_none hst]
      exact .ok .none
    | some st =>
      obtain ⟨st', hst', halike⟩ := h.read_some hst
      rw [hst']
      exact .ok (.some halike)
  | error e =>
    cases hst' : read (trim line') with
    | error e' => exact .error trivial
    | ok o =>
      cases o with
      | none => cases hst.symm.trans (h.symm.read_none hst')
      | some st' =>
        obtain ⟨st, hread, -⟩ := h.symm.read_some hst'
        cases hst.symm.trans hread

end Session
end Reckoner
