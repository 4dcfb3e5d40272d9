import Reckoner.Proofs.Spelling

namespace Reckoner

namespace Token

structure IsLexical (t : Token) : Prop where
  numeral : t.kind = .number → IsNumeral t.text.toList
  name : t.kind = .identifier → t.text ≠ "" ∧ ∀ c ∈ t.text.toList, isLetter c = true

theorem isNumeral_lexeme? {c : Char} {cs : List Char} {l : Lexeme} (h : lexeme? c cs = some l)
    (hk : l.kind = some .number) : IsNumeral (c :: l.tail) := by
  have hsymbol (d : Char) : symbolKind? d ≠ some .number := by
    unfold symbolKind?
    split <;> simp
  unfold lexeme? at h
  split at h
  next hc =>
    cases h
    exact .mk hc (numberTail_idem cs)
  iterate 3
    split at h
    · cases h
      cases hk
  obtain ⟨k, hsome, rfl⟩ := Option.map_eq_some_iff.mp h
  exact absurd (hsome.trans hk) (hsymbol c)

/-- The numbers of the lexer are numerals, and its names are words of letters. -/
theorem isLexical_lexFrom {pos : Nat} {cs : List Char} {ts : List Token}
    (h : lexFrom pos cs = .ok ts) : ∀ t ∈ ts, t.IsLexical := by
  have hnumeral : ∀ t ∈ ts, t.kind = .number → IsNumeral t.text.toList := by
    refine forall_lexFrom ?_ h
    intro c cs l k pos hl hk hnumber
    rw [String.toList_ofList]
    exact isNumeral_lexeme? hl (hk.trans (congrArg some hnumber))
  intro t ht
  exact ⟨hnumeral t ht, isLetter_lexFrom h t ht⟩

end Token

namespace Expr

/-- Expressions that can be written down: their numbers are numerals, their names are words of
letters, their signs are those of the grammar, and nothing is called. -/
inductive IsWritten : Expr → Prop where
  | number {t : String} (ht : Token.IsNumeral t.toList) : IsWritten (.number t)
  | var {x : String} (hne : x ≠ "") (hletters : ∀ c ∈ x.toList, Token.isLetter c = true)
      (hi : x ≠ "i") : IsWritten (.var x)
  | imaginary : IsWritten .imaginary
  | negative {e : Expr} (he : IsWritten e) : IsWritten (.unary .neg e)
  | binary {op : BinOp} {l r : Expr} (hop : ∀ sign, op ≠ .other sign) (hl : IsWritten l)
      (hr : IsWritten r) : IsWritten (.binary op l r)
  | matrix {rows : List (List Expr)} (hne : rows ≠ []) (h : ∀ r ∈ rows, ∀ e ∈ r, IsWritten e) :
      IsWritten (.matrix rows)

def CallFree (e : Expr) : Prop :=
  ∀ g, e.calls g = false

theorem CallFree.part {d e : Expr} (h : e.CallFree) (hd : d.Part e) : d.CallFree := by
  intro g
  rw [← Bool.not_eq_true]
  intro hcalls
  exact Bool.false_ne_true ((h g).symm.trans (hd.calls hcalls))

theorem not_callFree_call (f : String) (e : Expr) : ¬ (Expr.call f e).CallFree := by
  intro h
  have hf := h f
  simp [calls] at hf

end Expr

namespace Session

/-- The expressions of a line are written, if they have no calls. -/
theorem isWritten_of_read {line : String} {st : Statement} (h : read line = .ok (some st)) :
    ∀ e ∈ st.exprs, e.CallFree → e.IsWritten := by
  obtain ⟨ts, hlex, hparse⟩ := read_eq_ok.mp h
  have hwritten : Grammar.Passes Token.IsLexical (fun e => e.CallFree → e.IsWritten) :=
    { number := fun ht hk _ => .number (ht.numeral hk)
      var := fun ht hk hi _ => .var (ht.name hk).1 (ht.name hk).2 hi
      imaginary := fun _ => .imaginary
      negative := fun he h => .negative (he (h.part (.unary _ _)))
      binary := fun hop hl hr h =>
        .binary hop (hl (h.part (.left _ _ _))) (hr (h.part (.right _ _ _)))
      call := fun g _ h => absurd h (Expr.not_callFree_call g _)
      matrix := fun hne hrows h =>
        .matrix hne fun r hr e he => hrows r hr e he (h.part (.element hr he)) }
  exact Grammar.holds_of_parse hwritten hparse (Token.isLexical_lexFrom hlex)

end Session
end Reckoner
