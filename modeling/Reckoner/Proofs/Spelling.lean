import Reckoner.Proofs.Grammar.Places
import Reckoner.Proofs.Request

namespace Reckoner
namespace Token
open Text

/-- The tokens of a text, apart from their places. -/
def Lexes (cs : List Char) (ts : List Token) : Prop :=
  ∀ pos, ∃ us, lexFrom pos cs = .ok us ∧ us.map face = ts.map face

/-- The characters of a number: digits, and at most one point after the first. -/
inductive IsNumeral : List Char → Prop where
  | mk {c : Char} {cs : List Char} (hc : isDigit c = true) (hcs : numberTail cs = (cs, [])) :
      IsNumeral (c :: cs)

section Runs
variable {p : Char → Bool} {w cs : List Char}

theorem takeWhile_head (h : ∀ c ∈ cs.head?, p c = false) : cs.takeWhile p = [] := by
  cases cs with
  | nil => rfl
  | cons c cs => simp [h c rfl]

theorem dropWhile_head (h : ∀ c ∈ cs.head?, p c = false) : cs.dropWhile p = cs := by
  cases cs with
  | nil => rfl
  | cons c cs => simp [h c rfl]

theorem numberTail_of_digits (h : ∀ c ∈ cs, isDigit c = true) : numberTail cs = (cs, []) := by
  have hdrop : cs.dropWhile isDigit = [] := List.dropWhile_eq_nil_iff.mpr h
  simp only [numberTail, hdrop, List.takeWhile_eq_self_iff.mpr h]

/-- What a number takes off a text is all of it when it stands alone. -/
theorem numberTail_idem (cs : List Char) :
    numberTail (numberTail cs).1 = ((numberTail cs).1, []) := by
  have hpoint : isDigit '.' = false := by decide
  have hall (l : List Char) : ∀ c ∈ l.takeWhile isDigit, isDigit c = true :=
    fun c hc => List.mem_takeWhile_imp hc
  cases hrest : cs.dropWhile isDigit with
  | nil =>
    simp only [numberTail, hrest]
    exact numberTail_of_digits (hall cs)
  | cons d rest =>
    by_cases hd : d = '.'
    · subst hd
      simp only [numberTail, hrest, takeWhile_append_stop hpoint, dropWhile_append_stop hpoint,
        List.dropWhile_eq_nil_iff.mpr (hall cs), List.dropWhile_eq_nil_iff.mpr (hall rest),
        List.takeWhile_eq_self_iff.mpr (hall cs), List.takeWhile_eq_self_iff.mpr (hall rest),
        List.nil_append]
    · have hnumber : numberTail cs = (cs.takeWhile isDigit, d :: rest) := by
        simp [numberTail, hrest, hd]
      rw [hnumber]
      exact numberTail_of_digits (hall cs)

end Runs

/-- The place of a token does not change what it is. -/
theorem face_tokens (l : Lexeme) (c : Char) (pos : Nat) :
    (l.tokens c pos).map face = (l.tokens c 0).map face := by
  unfold Lexeme.tokens
  cases l.kind <;> rfl

theorem lexeme?_symbol {c : Char} {cs : List Char} {k : TokenKind} (hc : symbolKind? c = some k)
    (hstar : c = '*' → cs.head? ≠ some '*') : lexeme? c cs = some ⟨some k, [], cs⟩ := by
  have hnot : isDigit c = false ∧ isLetter c = false ∧ isBlank c = false := by
    unfold symbolKind? at hc
    split at hc
    all_goals first | decide | cases hc
  have hpair : ¬ (c = '*' ∧ cs.head? = some '*') := fun h => hstar h.1 h.2
  simp [lexeme?, hnot, hpair, hc]

namespace Lexes
variable {c : Char} {cs w : List Char} {ts : List Token} {k : TokenKind}

theorem nil : Lexes [] [] :=
  fun _ => ⟨[], by rw [lexFrom], rfl⟩

/-- A text is spelled lexeme by lexeme. -/
theorem cons {l : Lexeme} (hl : lexeme? c cs = some l) (h : Lexes l.rest ts) :
    Lexes (c :: cs) (l.tokens c 0 ++ ts) := by
  intro pos
  obtain ⟨us, hus, hfaces⟩ := h (pos + 1 + l.tail.length)
  refine ⟨l.tokens c pos ++ us, ?_, ?_⟩
  · rw [lexFrom_cons hl, hus]
    rfl
  · rw [List.map_append, List.map_append, face_tokens, hfaces]

theorem blank (hc : isBlank c = true) (h : Lexes cs ts) : Lexes (c :: cs) ts := by
  intro pos
  rw [lexFrom_blank hc]
  exact h _

theorem blanks (hw : ∀ c ∈ w, isBlank c = true) (h : Lexes cs ts) : Lexes (w ++ cs) ts := by
  intro pos
  rw [lexFrom_blanks hw]
  exact h _

theorem symbol (hc : symbolKind? c = some k) (hstar : c = '*' → cs.head? ≠ some '*')
    (h : Lexes cs ts) : Lexes (c :: cs) (⟨k, String.ofList [c], 0⟩ :: ts) :=
  cons (lexeme?_symbol hc hstar) h

theorem matMul (h : Lexes cs ts) : Lexes ('*' :: '*' :: cs) (⟨.matMul, "**", 0⟩ :: ts) :=
  cons (l := ⟨some .matMul, ['*'], cs⟩) rfl h

theorem word (hne : w ≠ []) (hw : ∀ c ∈ w, isLetter c = true)
    (hstop : ∀ c ∈ cs.head?, isLetter c = false) (h : Lexes cs ts) :
    Lexes (w ++ cs) (⟨.identifier, String.ofList w, 0⟩ :: ts) := by
  cases w with
  | nil => exact absurd rfl hne
  | cons c w =>
    obtain ⟨hc, hletters⟩ := List.forall_mem_cons.mp hw
    have hl : lexeme? c (w ++ cs) = some ⟨some .identifier, w, cs⟩ := by
      simp [lexeme?, not_isDigit_of_isLetter hc, hc, List.takeWhile_append_of_pos hletters,
        List.dropWhile_append_of_pos hletters, takeWhile_head hstop, dropWhile_head hstop]
    exact cons hl h

/-- After a numeral nothing may follow that would go on with it. -/
theorem numeral (hw : IsNumeral w) (hstop : ∀ c ∈ cs.head?, isDigit c = false ∧ c ≠ '.')
    (h : Lexes cs ts) : Lexes (w ++ cs) (⟨.number, String.ofList w, 0⟩ :: ts) := by
  cases hw with
  | @mk c w hc htail =>
    have hl : lexeme? c (w ++ cs) = some ⟨some .number, w, cs⟩ := by
      have hnumber : numberTail (w ++ cs) = (w, cs) := by
        cases cs with
        | nil => rw [List.append_nil, htail]
        | cons d cs =>
          obtain ⟨hd, hp⟩ := hstop d rfl
          rw [numberTail_append_stop hd hp, htail, List.nil_append]
      simp [lexeme?, hc, hnumber]
    exact cons hl h

end Lexes

def stops : List Char → Bool
  | [] => true
  | c :: _ => !isDigit c && !isLetter c && c != '.' && c != '*'

/-- A text spells tokens, alone or before a text that does not go on with the last of them. -/
def Spells (cs : List Char) (ts : List Token) : Prop :=
  ∀ w us, stops w = true → Lexes w us → Lexes (cs ++ w) (ts ++ us)

namespace Spells
variable {c : Char} {cs w : List Char} {ts us : List Token} {k : TokenKind}

/-- A text that stands alone spells its tokens. -/
theorem lexes (h : Spells cs ts) : Lexes cs ts := by
  have hnil := h [] [] rfl .nil
  rwa [List.append_nil, List.append_nil] at hnil

/-- Two texts side by side, if the second does not go on with the first. -/
theorem append (h : Spells cs ts) (hw : stops w = true) (hne : w ≠ []) (h' : Spells w us) :
    Spells (cs ++ w) (ts ++ us) := by
  intro v vs hv hvs
  rw [List.append_assoc, List.append_assoc]
  apply h
  · cases w with
    | nil => exact absurd rfl hne
    | cons c w => exact hw
  · exact h' v vs hv hvs

theorem blank (hc : isBlank c = true) (h : Spells cs ts) : Spells (c :: cs) ts :=
  fun w us hw hus => (h w us hw hus).blank hc

theorem space (h : Spells cs ts) : Spells (' ' :: cs) ts :=
  h.blank rfl

theorem symbol (hc : symbolKind? c = some k) (hstar : c ≠ '*') (h : Spells cs ts) :
    Spells (c :: cs) (⟨k, String.ofList [c], 0⟩ :: ts) :=
  fun w us hw hus => (h w us hw hus).symbol hc (fun he => absurd he hstar)

end Spells
end Token

/-- The statement of a line is that of the tokens that it spells. -/
theorem Session.read_of_lexes {line : String} {ts : List Token} {st : Statement}
    (h : Token.Lexes line.toList ts) (hp : Parser.parse ts = .ok (some st)) :
    read line = .ok (some st) := by
  obtain ⟨us, hus, hfaces⟩ := h 0
  exact read_eq_ok.mpr ⟨us, hus, Grammar.parse_of_faces hfaces hp⟩

end Reckoner
