import Mathlib
import Reckoner.Proofs.Lexing.Layout

namespace Reckoner.Token
open Text TokenKind

/-- The texts of tokens with single spaces between them. -/
def spaced (ts : List Token) : String :=
  String.intercalate " " (ts.map Token.text)

theorem not_isBlank_of_symbolKind? {c : Char} {k : TokenKind} (h : symbolKind? c = some k) :
    isBlank c = false := by
  unfold symbolKind? at h
  split at h
  all_goals first | decide | cases h

/-- There is no blank in a token. -/
theorem not_isBlank_of_fits {k : TokenKind} {w : List Char} (h : k.Fits w) :
    ∀ c ∈ w, isBlank c = false := by
  intro c hc
  cases k with
  | number =>
    rcases h.number.2.1 c hc with hdigit | rfl
    · exact isBlank_of_isDigit hdigit
    · decide
  | identifier => exact isBlank_of_isLetter (h.2 c hc)
  | matMul =>
    subst h
    have hstar : c = '*' := by simpa using hc
    subst hstar
    decide
  | _ =>
    obtain ⟨d, rfl, hd⟩ := h
    cases List.mem_singleton.mp hc
    exact not_isBlank_of_symbolKind? hd

/-- No token goes on over a blank, so each ends before a space whatever comes after it. -/
theorem longest_blank {b : Char} (hb : isBlank b = true) (w rest : List Char) :
    Longest w (b :: rest) := by
  intro v hv hpre k hfits
  obtain ⟨d, v, rfl⟩ := List.exists_cons_of_ne_nil hv
  obtain ⟨rfl, -⟩ := List.cons_prefix_cons.mp hpre
  cases hb.symm.trans (not_isBlank_of_fits hfits d (by simp))

theorem longest_nil (w : List Char) : Longest w [] :=
  fun _ hv hpre => absurd (List.prefix_nil.mp hpre) hv

theorem spaced_cons_cons (t u : Token) (ts : List Token) :
    (spaced (t :: u :: ts)).toList = t.text.toList ++ ' ' :: (spaced (u :: ts)).toList := by
  simp [spaced]

/-- Tokens with spaces between them are laid out, each of them at a place of its own. -/
theorem laid_spaced {ts : List Token} (h : ∀ t ∈ ts, t.kind.Fits t.text.toList) (pos : Nat) :
    ∃ us, Laid pos (spaced ts).toList us ∧ us.map face = ts.map face := by
  induction ts generalizing pos with
  | nil => exact ⟨[], .nil (by simp [spaced]), rfl⟩
  | cons t ts ih =>
    obtain ⟨ht, hts⟩ := List.forall_mem_cons.mp h
    -- The same token, moved to where it stands now.
    let t' : Token := { t with pos := pos }
    have hcons {rest : List Char} {us : List Token} (hlong : Longest t.text.toList rest)
        (hlaid : Laid (pos + t.text.toList.length) rest us) :
        Laid pos (t.text.toList ++ rest) (t' :: us) :=
      @Laid.cons pos [] rest t' us (List.forall_mem_nil _) rfl ht hlong hlaid
    cases ts with
    | nil =>
      have hlaid := hcons (longest_nil _) (.nil (List.forall_mem_nil _))
      rw [List.append_nil] at hlaid
      exact ⟨[t'], by simpa [spaced] using hlaid, rfl⟩
    | cons u ts =>
      obtain ⟨us, hlaid, hfaces⟩ := ih hts (pos + t.text.toList.length + 1)
      have hspace : ∀ c ∈ [' '], isBlank c = true := List.forall_mem_singleton.mpr rfl
      refine ⟨t' :: us, ?_, ?_⟩
      · rw [spaced_cons_cons]
        exact hcons (longest_blank rfl _ _) (Laid.blanks hspace hlaid)
      · rw [List.map_cons, List.map_cons, hfaces]
        rfl

/-- The tokens of a line, with single spaces between them, are the tokens of a line that makes the
same statement. -/
theorem read_spaced (line : String) (ts : List Token) (h : lex line = .ok ts) :
    (∃ us, lex (spaced ts) = .ok us ∧ us.map face = ts.map face) ∧
      ∀ st, Parser.read (spaced ts) = .ok st ↔ Parser.read line = .ok st := by
  have hfits : ∀ t ∈ ts, t.kind.Fits t.text.toList := fun t ht =>
    ((lexFrom_eq_ok_iff.mp h).stands t ht).1
  obtain ⟨us, hlaid, hfaces⟩ := laid_spaced hfits 0
  have hus : lex (spaced ts) = .ok us := lexFrom_eq_ok_iff.mpr hlaid
  refine ⟨⟨us, hus, hfaces⟩, fun st => ?_⟩
  have hread {text : String} {vs : List Token} (hvs : lex text = .ok vs) :
      Parser.read text = Parser.parse vs := by
    rw [Parser.read, hvs]
    rfl
  rw [hread hus, hread h]
  exact ⟨Grammar.parse_ok_of_faces hfaces.symm, Grammar.parse_ok_of_faces hfaces⟩

/-- A number that ends in a point, two stars, and a digit next to a letter. -/
theorem read_spaced_stars :
    let ts : List Token := [⟨.number, "2.", 0⟩, ⟨.identifier, "x", 2⟩, ⟨.matMul, "**", 3⟩,
      ⟨.number, "3", 5⟩, ⟨.identifier, "y", 6⟩]
    lex "2.x**3y" = .ok ts ∧ spaced ts = "2. x ** 3 y" ∧
      (∃ us, lex "2. x ** 3 y" = .ok us ∧ us.map face = ts.map face) ∧
      ∀ st, Parser.read "2. x ** 3 y" = .ok st ↔ Parser.read "2.x**3y" = .ok st := by
  intro ts
  have hlex : lex "2.x**3y" = .ok ts := by cbv
  have htext : spaced ts = "2. x ** 3 y" := by decide
  have h := read_spaced "2.x**3y" ts hlex
  rw [htext] at h
  exact ⟨hlex, htext, h⟩

end Reckoner.Token
