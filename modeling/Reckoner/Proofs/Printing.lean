import Reckoner.Proofs.Grammar.Signs
import Reckoner.Proofs.Written

namespace Reckoner

namespace BinOp

def tokenKind : BinOp → TokenKind
  | add => .plus
  | sub => .minus
  | mul => .multiply
  | div => .divide
  | mod => .modulo
  | matMul => .matMul
  | pow => .power
  | other _ => .question

def token (op : BinOp) : Token :=
  ⟨op.tokenKind, op.sign, 0⟩

def isSum : BinOp → Bool
  | add | sub => true
  | _ => false

def between (op : BinOp) : String :=
  if op = .pow then "^" else " " ++ op.sign ++ " "

end BinOp

namespace Expr

/-- Whether an operand of `op` stands in parentheses. -/
def isEnclosed (op : BinOp) : Expr → Bool
  | .binary inner _ _ => inner.rank < op.rank ∨ op = .pow
  | _ => false

/-- The text of an operand, with parentheses around it or without. -/
theorem operand_eq (op : BinOp) (e : Expr) (text : String) :
    operand op e text = if e.isEnclosed op then inParens text else text := by
  cases e <;> simp [operand, isEnclosed]

/-- Beside a power every sign is in parentheses, as it is after a minus. -/
theorem text_negative (e : Expr) : (unary .neg e).text = "-" ++ operand .pow e e.text := by
  cases e <;> simp [text, operand, UnOp.sign]

theorem text_binary (op : BinOp) (l r : Expr) :
    (binary op l r).text = operand op l l.text ++ op.between ++ operand op r r.text := by
  simp only [text, joined, BinOp.between]

def enclosedTokens (enclosed : Bool) (ts : List Token) : List Token :=
  if enclosed then ⟨.lparen, "(", 0⟩ :: (ts ++ [⟨.rparen, ")", 0⟩]) else ts

def bracketTokens (ts : List Token) : List Token :=
  ⟨.lbracket, "[", 0⟩ :: (ts ++ [⟨.rbracket, "]", 0⟩])

def elementsTokens (elements : List (List Token)) : List Token :=
  bracketTokens (List.intercalate [⟨.comma, ",", 0⟩] elements)

def rowsTokens (rows : List (List Token)) : List Token :=
  bracketTokens (List.intercalate [⟨.semicolon, ";", 0⟩] rows)

mutual
/-- The tokens of the text of an expression. -/
def tokens : Expr → List Token
  | .number t => [⟨.number, t, 0⟩]
  | .var x => [⟨.identifier, x, 0⟩]
  | .imaginary => [⟨.identifier, "i", 0⟩]
  | .unary _ e => ⟨.minus, "-", 0⟩ :: enclosedTokens (e.isEnclosed .pow) (tokens e)
  | .binary op l r =>
    enclosedTokens (l.isEnclosed op) (tokens l) ++
      op.token :: enclosedTokens (r.isEnclosed op) (tokens r)
  | .matrix rows => rowsTokens (tokensRows rows)
  | .absent | .call _ _ | .other _ => []

def tokensRow : List Expr → List (List Token)
  | [] => []
  | e :: es => tokens e :: tokensRow es

def tokensRows : List (List Expr) → List (List Token)
  | [] => []
  | r :: rs => elementsTokens (tokensRow r) :: tokensRows rs
end

section Rows

theorem elementTexts_eq (r : List Expr) : elementTexts r = r.map text := by
  induction r with
  | nil => rfl
  | cons e es ih => simp only [elementTexts, ih, List.map_cons]

theorem rowTexts_eq (rows : List (List Expr)) :
    rowTexts rows = rows.map (fun r => rowText (r.map text)) := by
  induction rows with
  | nil => rfl
  | cons r rs ih => simp only [rowTexts, elementTexts_eq, ih, List.map_cons]

theorem tokensRow_eq (r : List Expr) : tokensRow r = r.map tokens := by
  induction r with
  | nil => rfl
  | cons e es ih => simp only [tokensRow, ih, List.map_cons]

theorem tokensRows_eq (rows : List (List Expr)) :
    tokensRows rows = rows.map (fun r => elementsTokens (r.map tokens)) := by
  induction rows with
  | nil => rfl
  | cons r rs ih => simp only [tokensRows, tokensRow_eq, ih, List.map_cons]

end Rows
end Expr

namespace Token.Spells
open Text
variable {cs : List Char} {ts : List Token}

theorem nil : Spells [] [] :=
  fun _ _ _ h => h

/-- What stops a numeral or a word is no part of either. -/
theorem head_of_stops {w : List Char} (h : stops w = true) :
    ∀ c ∈ w.head?, isDigit c = false ∧ isLetter c = false ∧ c ≠ '.' := by
  cases w with
  | nil => exact fun c hc => nomatch hc
  | cons d w =>
    intro c hc
    cases hc
    simp only [stops, Bool.and_eq_true, Bool.not_eq_true', bne_iff_ne] at h
    exact ⟨h.1.1.1, h.1.1.2, h.1.2⟩

/-- Numerals and words spell one token each. -/
theorem numeral {t : String} (ht : IsNumeral t.toList) : Spells t.toList [⟨.number, t, 0⟩] := by
  intro w us hw hus
  have hlex := hus.numeral ht fun c hc =>
    ⟨(head_of_stops hw c hc).1, (head_of_stops hw c hc).2.2⟩
  rwa [String.ofList_toList] at hlex

theorem word {x : String} (hne : x ≠ "") (hletters : ∀ c ∈ x.toList, isLetter c = true) :
    Spells x.toList [⟨.identifier, x, 0⟩] := by
  intro w us hw hus
  have hnil : x.toList ≠ [] := fun h => hne (String.toList_eq_nil_iff.mp h)
  have hlex := hus.word hnil hletters fun c hc => (head_of_stops hw c hc).2.1
  rwa [String.ofList_toList] at hlex

theorem parens (h : Spells cs ts) :
    Spells ('(' :: (cs ++ [')'])) (⟨.lparen, "(", 0⟩ :: (ts ++ [⟨.rparen, ")", 0⟩])) := by
  have hclose : Spells [')'] [⟨.rparen, ")", 0⟩] := nil.symbol rfl (by decide)
  exact (h.append rfl (by simp) hclose).symbol rfl (by decide)

theorem brackets (h : Spells cs ts) :
    Spells ('[' :: ' ' :: (cs ++ [' ', ']'])) (Expr.bracketTokens ts) := by
  have hclose : Spells [' ', ']'] [⟨.rbracket, "]", 0⟩] :=
    (nil.symbol rfl (by decide)).space
  exact (h.append rfl (by simp) hclose).space.symbol rfl (by decide)

/-- A sign is the same token with blanks around it or without. -/
theorem sign {op : BinOp} (hop : ∀ sign, op ≠ .other sign) (h : Spells cs ts) :
    Spells (op.between.toList ++ cs) (op.token :: ts) := by
  have hafter : Spells (' ' :: cs) ts := h.space
  cases op with
  | add | sub | div | mod => exact (hafter.symbol rfl (by decide)).space
  | pow => exact h.symbol rfl (by decide)
  | mul =>
    -- A star is a sign of its own only if no other star follows.
    have hstar : Spells ('*' :: ' ' :: cs) (BinOp.mul.token :: ts) := by
      intro w us hw hus
      exact (hafter w us hw hus).symbol rfl (by simp)
    exact hstar.space
  | matMul =>
    have hstars : Spells ('*' :: '*' :: ' ' :: cs) (BinOp.matMul.token :: ts) := by
      intro w us hw hus
      exact (hafter w us hw hus).matMul
    exact hstars.space
  | other s => exact absurd rfl (hop s)

theorem stops_between (op : BinOp) (hop : ∀ sign, op ≠ .other sign) (cs : List Char) :
    stops (op.between.toList ++ cs) = true ∧ op.between.toList ++ cs ≠ [] := by
  cases op with
  | other s => exact absurd rfl (hop s)
  | _ => exact ⟨rfl, by simp [BinOp.between]⟩

/-- Texts with a separator between them spell their tokens with that of the separator between
them. -/
theorem intercalate {α : Type} {f : α → List Char} {g : α → List Token} {c : Char} {k : TokenKind}
    (hc : symbolKind? c = some k) (hstar : c ≠ '*') {xs : List α}
    (h : ∀ x ∈ xs, Spells (f x) (g x)) :
    Spells (List.intercalate [' ', c, ' '] (xs.map f))
      (List.intercalate [⟨k, String.ofList [c], 0⟩] (xs.map g)) := by
  induction xs with
  | nil => exact nil
  | cons x xs ih =>
    obtain ⟨hx, hxs⟩ := List.forall_mem_cons.mp h
    cases xs with
    | nil =>
      rw [List.map_singleton, List.map_singleton, List.intercalate_singleton,
        List.intercalate_singleton]
      exact hx
    | cons y ys =>
      simp only [List.map_cons, List.intercalate_cons_cons, List.append_assoc]
      have hmore := ((ih hxs).space.symbol hc hstar).space
      exact hx.append rfl (by simp) hmore

end Token.Spells

namespace Expr
open Token

theorem toList_rowText (xs : List String) :
    (rowText xs).toList =
      '[' :: ' ' :: (List.intercalate [' ', ',', ' '] (xs.map String.toList) ++ [' ', ']']) := by
  rw [rowText, String.toList_append, String.toList_append, String.toList_intercalate]
  rfl

theorem toList_rowsText (xs : List String) :
    (rowsText xs).toList =
      '[' :: ' ' :: (List.intercalate [' ', ';', ' '] (xs.map String.toList) ++ [' ', ']']) := by
  rw [rowsText, String.toList_append, String.toList_append, String.toList_intercalate]
  rfl

/-- Parentheses around a text are tokens around its tokens. -/
theorem spells_operand (op : BinOp) {e : Expr} (h : Spells e.text.toList e.tokens) :
    Spells (operand op e e.text).toList (enclosedTokens (e.isEnclosed op) e.tokens) := by
  rw [operand_eq, enclosedTokens]
  split
  · rw [inParens, String.toList_append, String.toList_append]
    exact h.parens
  · exact h

theorem spells_row {r : List Expr} (h : ∀ e ∈ r, Spells e.text.toList e.tokens) :
    Spells (rowText (r.map text)).toList (elementsTokens (r.map tokens)) := by
  rw [toList_rowText, List.map_map]
  exact (Spells.intercalate rfl (by decide) h).brackets

/-- The text of a written expression spells its tokens. -/
theorem IsWritten.spells {e : Expr} (h : e.IsWritten) : Spells e.text.toList e.tokens := by
  induction h with
  | number ht => exact .numeral ht
  | var hne hletters => exact .word hne hletters
  | imaginary => exact Spells.word (x := "i") (by simp) (List.forall_mem_singleton.mpr rfl)
  | @negative e _ ih =>
    rw [text_negative, String.toList_append]
    exact (spells_operand .pow ih).symbol rfl (by decide)
  | @binary op l r hop _ _ ihl ihr =>
    rw [text_binary, String.toList_append, String.toList_append, List.append_assoc]
    obtain ⟨hstops, hne⟩ := Spells.stops_between op hop (operand op r r.text).toList
    exact (spells_operand op ihl).append hstops hne ((spells_operand op ihr).sign hop)
  | @matrix rows _ _ ih =>
    rw [text, rowTexts_eq, toList_rowsText, List.map_map, tokens, tokensRows_eq]
    exact (Spells.intercalate rfl (by decide) fun r hr => spells_row (ih r hr)).brackets

/-- Whether the text of an expression begins with a minus. -/
def leadsMinus : Expr → Bool
  | .unary _ _ => true
  | .binary op l _ => !l.isEnclosed op && leadsMinus l
  | _ => false

def operandLeads (op : BinOp) (e : Expr) : Bool :=
  !e.isEnclosed op && e.leadsMinus

mutual
/-- Whether no summand after a sign begins with a minus, in the text of an expression. -/
def signsApart : Expr → Bool
  | .unary _ e => signsApart e
  | .binary op l r => signsApart l && signsApart r && !(op.isSum && operandLeads op r)
  | .matrix rows => signsApartRows rows
  | _ => true

def signsApartRow : List Expr → Bool
  | [] => true
  | e :: es => signsApart e && signsApartRow es

def signsApartRows : List (List Expr) → Bool
  | [] => true
  | r :: rs => signsApartRow r && signsApartRows rs
end

theorem signsApartRow_eq (r : List Expr) : signsApartRow r = r.all signsApart := by
  induction r with
  | nil => rfl
  | cons e es ih => simp only [signsApartRow, ih, List.all_cons]

theorem signsApartRows_eq (rows : List (List Expr)) :
    signsApartRows rows = rows.all (fun r => r.all signsApart) := by
  induction rows with
  | nil => rfl
  | cons r rs ih => simp only [signsApartRows, signsApartRow_eq, ih, List.all_cons]

section Scan
open Grammar

/-- What the scan of an expression in front of other tokens finds. -/
def Scans (e : Expr) : Prop :=
  ∀ p bs ks, p = .start ∨ p = .sign →
    apart p bs (e.tokens.map Token.kind ++ ks) =
      (e.signsApart && (p == .start || !e.leadsMinus) && apart .operand bs ks)

/-- In parentheses an operand may begin with a minus. -/
theorem Scans.operand {e : Expr} (h : e.Scans) (op : BinOp) (p : Place) (bs : List Bracket)
    (ks : List TokenKind) (hp : p = .start ∨ p = .sign) :
    apart p bs ((enclosedTokens (e.isEnclosed op) e.tokens).map Token.kind ++ ks) =
      (e.signsApart && (p == .start || !operandLeads op e) && apart .operand bs ks) := by
  rw [enclosedTokens, operandLeads]
  cases e.isEnclosed op with
  | false => exact h p bs ks hp
  | true =>
    have hinner := h .start (.group :: bs) (.rparen :: ks) (.inl rfl)
    simp only [if_true, List.map_cons, List.map_append, List.map_nil, List.cons_append,
      List.append_assoc, List.nil_append, Bool.not_true, Bool.false_and, Bool.not_false,
      Bool.or_true, Bool.and_true]
    simp only [beq_self_eq_true, Bool.true_or, Bool.and_true] at hinner
    exact hinner

/-- Brackets around phrases with separators between them. -/
theorem apart_intercalate {α : Type} {f : α → List Token} {b : α → Bool} {p q : Place}
    {bs : List Bracket} {sep : Token} (hsep : sep.kind = .comma ∨ sep.kind = .semicolon)
    (hp : Place.separated bs = p) {xs : List α}
    (h : ∀ x ∈ xs, ∀ ks, apart p bs ((f x).map Token.kind ++ ks) =
      (b x && apart q bs ks)) (ks : List TokenKind) :
    apart p bs ((List.intercalate [sep] (xs.map f)).map Token.kind ++ .rbracket :: ks) =
      (xs.all b && apart (.closing bs) bs.tail ks) := by
  induction xs with
  | nil => rfl
  | cons x xs ih =>
    obtain ⟨hx, hxs⟩ := List.forall_mem_cons.mp h
    cases xs with
    | nil =>
      simp only [List.map_cons, List.map_nil, List.intercalate_singleton, List.all_cons,
        List.all_nil, Bool.and_true]
      exact hx _
    | cons y ys =>
      have hmore := ih hxs
      have hnext (us : List Token) :
          apart q bs ((sep :: us).map Token.kind ++ .rbracket :: ks) =
            apart p bs (us.map Token.kind ++ .rbracket :: ks) := by
        rw [← hp]
        rcases hsep with hsep | hsep <;> rw [List.map_cons, hsep] <;> rfl
      rw [List.map_cons] at hmore
      rw [List.map_cons, List.map_cons, List.intercalate_cons_cons, List.append_assoc,
        List.map_append, List.append_assoc, hx, List.singleton_append, hnext, hmore,
        ← Bool.and_assoc]
      rfl

theorem kinds_bracketTokens (ts : List Token) (ks : List TokenKind) :
    (bracketTokens ts).map Token.kind ++ ks =
      .lbracket :: (ts.map Token.kind ++ .rbracket :: ks) := by
  simp [bracketTokens]

theorem apart_token {op : BinOp} (hop : ∀ sign, op ≠ .other sign) (bs : List Bracket)
    (ks : List TokenKind) :
    apart .operand bs (op.token.kind :: ks) =
      apart (if op.isSum then .sign else .start) bs ks := by
  cases op with
  | other s => exact absurd rfl (hop s)
  | _ => rfl

/-- A scan finds a minus right after the sign of a sum just where a summand without parentheses
begins with one. -/
theorem IsWritten.scans {e : Expr} (h : e.IsWritten) : e.Scans := by
  induction h with
  | number | var | imaginary =>
    intro p bs ks hp
    rcases hp with rfl | rfl <;> rfl
  | @negative e _ ih =>
    intro p bs ks hp
    rcases hp with rfl | rfl
    · exact ih.operand .pow .start bs ks (.inl rfl)
    · simp [tokens, leadsMinus, Grammar.apart]
  | @binary op l r hop _ _ ihl ihr =>
    intro p bs ks hp
    have hright : (if op.isSum then Place.sign else Place.start) = .start ∨
        (if op.isSum then Place.sign else Place.start) = .sign := by
      cases op.isSum <;> simp
    rw [tokens, List.map_append, List.append_assoc, ihl.operand op p bs _ hp, List.map_cons,
      List.cons_append, apart_token hop, ihr.operand op _ bs ks hright]
    have hsign : (Place.sign == Place.start) = false := rfl
    simp only [signsApart, leadsMinus, operandLeads]
    cases op.isSum <;> simp [hsign, Bool.and_assoc, Bool.and_comm, Bool.and_left_comm]
  | @matrix rows _ _ ih =>
    intro p bs ks hp
    have hrow (r : List Expr) (hr : r ∈ rows) (ks : List TokenKind) :
        apart .item (.matrix :: bs) ((elementsTokens (r.map tokens)).map Token.kind ++ ks) =
          (r.all signsApart && apart .item (.matrix :: bs) ks) := by
      rw [elementsTokens, kinds_bracketTokens]
      refine apart_intercalate (p := .start) (q := .operand) (.inl rfl) rfl ?_ ks
      intro e he ks
      have helement := ih r hr e he .start (.row :: .matrix :: bs) ks (.inl rfl)
      simpa using helement
    have hopen : p ≠ .item := by
      rcases hp with rfl | rfl <;> decide
    rw [tokens, rowsTokens, tokensRows_eq, kinds_bracketTokens, apart, if_neg hopen]
    refine (apart_intercalate (p := .item) (.inr rfl) rfl hrow ks).trans ?_
    rw [signsApart, signsApartRows_eq]
    simp [leadsMinus, Place.closing]

end Scan
end Expr

/-- The text of an expression where signs come side by side is not read. -/
theorem Session.refused_of_signs {e : Expr} (he : e.IsWritten) (h : e.signsApart = false) :
    ∃ err, read e.text = .error err := by
  cases hread : read e.text with
  | error err => exact ⟨err, rfl⟩
  | ok o =>
    obtain ⟨ts, hlex, hparse⟩ := read_eq_ok.mp hread
    obtain ⟨us, hus, hfaces⟩ := he.spells.lexes 0
    cases hlex.symm.trans hus
    have hkept := Grammar.apart_of_parse hparse
    have hscan := he.scans .start [] [] (.inl rfl)
    rw [List.append_nil, ← Grammar.kinds_of_faces hfaces, hkept, h] at hscan
    cases hscan

end Reckoner
