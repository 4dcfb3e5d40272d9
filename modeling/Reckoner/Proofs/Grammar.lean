import Reckoner.Expr.Parser

namespace Reckoner.Grammar
open Reckoner.Parser

def kind? (ts : List Token) : Option TokenKind :=
  ts.head?.map Token.kind

@[simp]
theorem kind?_nil : kind? [] = none := rfl

@[simp]
theorem kind?_cons (t : Token) (ts : List Token) : kind? (t :: ts) = some t.kind := rfl

theorem kind?_eq_some {ts : List Token} {k : TokenKind} :
    kind? ts = some k ↔ ∃ t ts', ts = t :: ts' ∧ t.kind = k := by
  cases ts with
  | nil => simp
  | cons t ts => simp

inductive Symbol where
  | sum
  /-- Signs and terms that follow the first term of a sum. -/
  | sumTail
  | term
  /-- Signs and powers that follow the first power of a term. -/
  | termTail
  | power
  | factor
  /-- What stands between the brackets of a matrix. -/
  | items
  /-- What stands between the brackets of a row. -/
  | row

/-- What a phrase means: tails await the operand on their left, and items the pending row. -/
abbrev Symbol.Meaning : Symbol → Type
  | sum | term | power | factor => Expr
  | sumTail | termTail => Expr → Expr
  | items => List Expr → List (List Expr)
  | row => List Expr

/-- Ways to take a phrase off the front of a list of tokens. What is left is part of a derivation,
since a name that is followed by a parenthesis is a call. -/
inductive Derivation : Symbol → List Token → List Token → Type where
  | sum {ts mid rest : List Token} (first : Derivation .term ts mid)
      (tail : Derivation .sumTail mid rest) : Derivation .sum ts rest
  | sumEnd {ts : List Token} : Derivation .sumTail ts ts
  /-- The term after a sign does not begin with a sign of its own. -/
  | sumNext {t : Token} {ts mid rest : List Token} (op : BinOp) (hop : sumOp? t.kind = some op)
      (hsign : kind? ts ≠ some .minus) (right : Derivation .term ts mid)
      (tail : Derivation .sumTail mid rest) : Derivation .sumTail (t :: ts) rest
  | term {ts mid rest : List Token} (first : Derivation .power ts mid)
      (tail : Derivation .termTail mid rest) : Derivation .term ts rest
  | termEnd {ts : List Token} : Derivation .termTail ts ts
  | product {t : Token} {ts mid rest : List Token} (op : BinOp)
      (hop : productOp? t.kind = some op) (right : Derivation .power ts mid)
      (tail : Derivation .termTail mid rest) : Derivation .termTail (t :: ts) rest
  /-- Two powers side by side are multiplied. -/
  | adjacent {t : Token} {ts mid rest : List Token} (hstart : startsFactor t.kind = true)
      (right : Derivation .power (t :: ts) mid) (tail : Derivation .termTail mid rest) :
      Derivation .termTail (t :: ts) rest
  | base {ts rest : List Token} (only : Derivation .factor ts rest) : Derivation .power ts rest
  | raised {t : Token} {ts mid rest : List Token} (left : Derivation .factor ts (t :: mid))
      (ht : t.kind = .power) (exponent : Derivation .power mid rest) : Derivation .power ts rest
  | negative {t : Token} {ts rest : List Token} (ht : t.kind = .minus)
      (arg : Derivation .factor ts rest) : Derivation .factor (t :: ts) rest
  | parens {t u : Token} {ts rest : List Token} (ht : t.kind = .lparen)
      (inner : Derivation .sum ts (u :: rest)) (hu : u.kind = .rparen) :
      Derivation .factor (t :: ts) rest
  | numeral {rest : List Token} (t : Token) (ht : t.kind = .number) :
      Derivation .factor (t :: rest) rest
  | imaginary {t : Token} {rest : List Token} (ht : t.kind = .identifier) (hi : t.text = "i") :
      Derivation .factor (t :: rest) rest
  | call {u w : Token} {ts rest : List Token} (t : Token) (ht : t.kind = .identifier)
      (hi : t.text ≠ "i") (hu : u.kind = .lparen) (arg : Derivation .sum ts (w :: rest))
      (hw : w.kind = .rparen) : Derivation .factor (t :: u :: ts) rest
  | name {rest : List Token} (t : Token) (ht : t.kind = .identifier) (hi : t.text ≠ "i")
      (hrest : kind? rest ≠ some .lparen) : Derivation .factor (t :: rest) rest
  /-- A matrix has an item, and so a row. -/
  | matrix {t u : Token} {ts rest : List Token} (ht : t.kind = .lbracket)
      (hne : kind? ts ≠ some .rbracket) (inner : Derivation .items ts (u :: rest))
      (hu : u.kind = .rbracket) : Derivation .factor (t :: ts) rest
  | itemsEnd {ts : List Token} : Derivation .items ts ts
  | nested {t u : Token} {ts mid rest : List Token} (ht : t.kind = .lbracket)
      (first : Derivation .row ts (u :: mid)) (hu : u.kind = .rbracket)
      (more : Derivation .items mid rest) : Derivation .items (t :: ts) rest
  /-- A row in brackets of its own may have a separator after it. -/
  | nestedSep {t u w : Token} {ts mid rest : List Token} (ht : t.kind = .lbracket)
      (first : Derivation .row ts (u :: w :: mid)) (hu : u.kind = .rbracket)
      (hw : w.kind = .comma ∨ w.kind = .semicolon) (more : Derivation .items mid rest) :
      Derivation .items (t :: ts) rest
  | flatComma {u : Token} {ts mid rest : List Token} (hflat : kind? ts ≠ some .lbracket)
      (first : Derivation .sum ts (u :: mid)) (hu : u.kind = .comma)
      (more : Derivation .items mid rest) : Derivation .items ts rest
  /-- A semicolon after an element closes the pending row. -/
  | flatSemicolon {u : Token} {ts mid rest : List Token} (hflat : kind? ts ≠ some .lbracket)
      (first : Derivation .sum ts (u :: mid)) (hu : u.kind = .semicolon)
      (more : Derivation .items mid rest) : Derivation .items ts rest
  | flatLast {ts rest : List Token} (hflat : kind? ts ≠ some .lbracket)
      (last : Derivation .sum ts rest) (hrest : kind? rest = some .rbracket) :
      Derivation .items ts rest
  | rowEnd {ts : List Token} : Derivation .row ts ts
  | rowLast {ts rest : List Token} (last : Derivation .sum ts rest) : Derivation .row ts rest
  | rowNext {u : Token} {ts mid rest : List Token} (first : Derivation .sum ts (u :: mid))
      (hu : u.kind = .comma) (more : Derivation .row mid rest) : Derivation .row ts rest

namespace Derivation
variable {S : Symbol} {ts rest : List Token}

/-- What a derivation builds. Sums and terms group to the left, powers to the right. -/
def meaning {S : Symbol} {ts rest : List Token} : Derivation S ts rest → S.Meaning
  | sum first tail | term first tail => tail.meaning first.meaning
  | sumEnd | termEnd => fun left => left
  | sumNext op _ _ right tail => fun left => tail.meaning (.binary op left right.meaning)
  | product op _ right tail => fun left => tail.meaning (.binary op left right.meaning)
  | adjacent _ right tail => fun left => tail.meaning (.binary .mul left right.meaning)
  | base only => only.meaning
  | raised left _ exponent => .binary .pow left.meaning exponent.meaning
  | negative _ arg => .unary .neg arg.meaning
  | parens _ inner _ => inner.meaning
  | numeral t _ => .number t.text
  | imaginary _ _ => .imaginary
  | call t _ _ _ arg _ => .call t.text arg.meaning
  | name t _ _ _ => .var t.text
  | matrix _ _ inner _ => .matrix (inner.meaning [])
  | itemsEnd => fun pending => if pending.isEmpty then [] else [pending]
  | nested _ first _ more | nestedSep _ first _ _ more =>
    fun pending => first.meaning :: more.meaning pending
  | flatComma _ first _ more => fun pending => more.meaning (pending ++ [first.meaning])
  | flatSemicolon _ first _ more => fun pending => (pending ++ [first.meaning]) :: more.meaning []
  | flatLast _ last _ => fun pending => [pending ++ [last.meaning]]
  | rowEnd => []
  | rowLast last => [last.meaning]
  | rowNext first _ more => first.meaning :: more.meaning

end Derivation

def startsOperand : TokenKind → Bool
  | .number | .identifier | .lparen | .lbracket | .minus => true
  | _ => false

/-- Tokens that come after a whole sum. -/
def closes : TokenKind → Bool
  | .assign | .question | .rparen | .rbracket | .semicolon | .comma => true
  | _ => false

def Symbol.size : Symbol → Nat
  | .sum | .term | .power | .factor => 1
  | .sumTail | .termTail | .items | .row => 0

/-- How a phrase begins, if it has tokens at all. -/
def Symbol.Begins (S : Symbol) (ts rest : List Token) : Prop :=
  match S with
  | .sum | .term | .power | .factor => ∃ k, kind? ts = some k ∧ startsOperand k = true
  | .sumTail => ts = rest ∨ ∃ k, kind? ts = some k ∧ (sumOp? k).isSome = true
  | .termTail =>
    ts = rest ∨ ∃ k, kind? ts = some k ∧ ((productOp? k).isSome = true ∨ startsFactor k = true)
  | .items | .row => ts = rest ∨ ∃ k, kind? ts = some k ∧ startsOperand k = true

/-- What may come after a phrase, so that it is read no further. -/
def Symbol.Ends (S : Symbol) (rest : List Token) : Prop :=
  match S with
  | .sum | .sumTail => ∀ k, kind? rest = some k → closes k = true
  | .term | .termTail => ∀ k, kind? rest = some k → closes k = true ∨ (sumOp? k).isSome = true
  | .power => kind? rest ≠ some .power
  | .factor => True
  | .items | .row => kind? rest = some .rbracket

def isMark (t : Token) : Bool :=
  t.kind = .assign || t.kind = .question

theorem filter_isMark_cons {t : Token} {k : TokenKind} (ht : t.kind = k) (ts : List Token)
    (hk : k ≠ .assign ∧ k ≠ .question) : (t :: ts).filter isMark = ts.filter isMark := by
  simp [isMark, ht, hk]

namespace Derivation
variable {S : Symbol} {ts mid rest : List Token}

/-- A phrase takes a token, unless it is a tail or what stands in brackets. -/
theorem length_le (d : Derivation S ts rest) : S.size + rest.length ≤ ts.length := by
  induction d <;> simp only [Symbol.size, List.length_cons] at * <;> omega

/-- A phrase begins with a token of its own, if it has any. -/
theorem begins (d : Derivation S ts rest) : S.Begins ts rest := by
  induction d with
  | sum _ _ ih _ | term _ _ ih _ => exact ih
  | base _ ih | raised _ _ _ ih _ => exact ih
  | sumEnd | termEnd | itemsEnd | rowEnd => exact .inl rfl
  | sumNext op hop => exact .inr ⟨_, rfl, by simp [hop]⟩
  | product op hop => exact .inr ⟨_, rfl, .inl (by simp [hop])⟩
  | adjacent hstart => exact .inr ⟨_, rfl, .inr hstart⟩
  | negative ht | parens ht | imaginary ht | matrix ht => exact ⟨_, rfl, by rw [ht]; rfl⟩
  | numeral t ht | call t ht | name t ht => exact ⟨_, rfl, by rw [ht]; rfl⟩
  | nested ht | nestedSep ht => exact .inr ⟨_, rfl, by rw [ht]; rfl⟩
  | flatComma _ _ _ _ ih _ | flatSemicolon _ _ _ _ ih _ => exact .inr ih
  | flatLast _ _ _ ih | rowLast _ ih | rowNext _ _ _ ih _ => exact .inr ih

/-- The signs of statements are never within a phrase. -/
theorem filter_isMark_eq (d : Derivation S ts rest) :
    ts.filter isMark = rest.filter isMark := by
  have hsum {k : TokenKind} {op : BinOp} (h : sumOp? k = some op) :
      k ≠ .assign ∧ k ≠ .question := by
    cases k <;> simp [sumOp?] at h ⊢
  have hproduct {k : TokenKind} {op : BinOp} (h : productOp? k = some op) :
      k ≠ .assign ∧ k ≠ .question := by
    cases k <;> simp [productOp?] at h ⊢
  induction d with
  | sum _ _ ih ih' | term _ _ ih ih' | adjacent _ _ _ ih ih' => exact ih.trans ih'
  | sumEnd | termEnd | itemsEnd | rowEnd => rfl
  | sumNext op hop _ _ _ ih ih' =>
    exact (filter_isMark_cons rfl _ (hsum hop)).trans (ih.trans ih')
  | product op hop _ _ ih ih' =>
    exact (filter_isMark_cons rfl _ (hproduct hop)).trans (ih.trans ih')
  | base _ ih | rowLast _ ih | flatLast _ _ _ ih => exact ih
  | raised _ ht _ ih ih' =>
    exact ih.trans ((filter_isMark_cons ht _ (by decide)).trans ih')
  | negative ht _ ih => exact (filter_isMark_cons ht _ (by decide)).trans ih
  | parens ht _ hu ih | matrix ht _ _ hu ih =>
    exact (filter_isMark_cons ht _ (by decide)).trans
      (ih.trans (filter_isMark_cons hu _ (by decide)))
  | numeral t ht | imaginary ht | name t ht => exact filter_isMark_cons ht _ (by decide)
  | call t ht _ hu _ hw ih =>
    exact (filter_isMark_cons ht _ (by decide)).trans
      ((filter_isMark_cons hu _ (by decide)).trans
        (ih.trans (filter_isMark_cons hw _ (by decide))))
  | nested ht _ hu _ ih ih' =>
    exact (filter_isMark_cons ht _ (by decide)).trans
      (ih.trans ((filter_isMark_cons hu _ (by decide)).trans ih'))
  | @nestedSep _ _ w _ mid _ ht _ hu hw _ ih ih' =>
    have hsep : (w :: mid).filter isMark = mid.filter isMark := by
      rcases hw with hw | hw <;> exact filter_isMark_cons hw _ (by decide)
    exact (filter_isMark_cons ht _ (by decide)).trans
      (ih.trans ((filter_isMark_cons hu _ (by decide)).trans (hsep.trans ih')))
  | flatComma _ _ hu _ ih ih' | flatSemicolon _ _ hu _ ih ih' | rowNext _ hu _ ih ih' =>
    exact ih.trans ((filter_isMark_cons hu _ (by decide)).trans ih')

/-- What comes after a term of a sum. -/
theorem ends_term (tail : Derivation .sumTail mid rest) (h : Symbol.sum.Ends rest) :
    Symbol.term.Ends mid := by
  intro k hk
  rcases tail.begins with rfl | ⟨j, hj, hop⟩
  · exact .inl (h k hk)
  · cases hj.symm.trans hk
    exact .inr hop

/-- What comes after a power of a term. -/
theorem ends_power (tail : Derivation .termTail mid rest) (h : Symbol.term.Ends rest) :
    Symbol.power.Ends mid := by
  intro hk
  rcases tail.begins with rfl | ⟨j, hj, hop⟩
  · rcases h .power hk with hc | hc <;> cases hc
  · cases hj.symm.trans hk
    rcases hop with hop | hop <;> cases hop

/-- Brackets, separators and the signs of statements end a sum. -/
theorem ends_sum {u : Token} {k : TokenKind} (hu : u.kind = k) (hk : closes k = true)
    (ts : List Token) : Symbol.sum.Ends (u :: ts) := by
  intro j hj
  cases hu.symm.trans (Option.some.inj hj)
  exact hk

theorem ends_sum_of_rbracket (h : kind? rest = some .rbracket) : Symbol.sum.Ends rest := by
  intro k hk
  cases h.symm.trans hk
  rfl

/-- A sum does not begin where the brackets close. -/
theorem kind?_ne_rbracket (d : Derivation .sum ts rest) : kind? ts ≠ some .rbracket := by
  intro h
  obtain ⟨k, hk, hs⟩ := d.begins
  cases h.symm.trans hk
  cases hs

/-- Items do not begin with a separator. -/
theorem not_separator (d : Derivation .items ts rest) (h : kind? rest = some .rbracket) :
    kind? ts ≠ some .comma ∧ kind? ts ≠ some .semicolon := by
  rcases d.begins with rfl | ⟨k, hk, hs⟩
  · simp [h]
  · constructor <;> intro hc <;> cases hk.symm.trans hc <;> cases hs

theorem head_not_separator {t : Token} (d : Derivation .items (t :: ts) rest)
    (h : kind? rest = some .rbracket) : ¬(t.kind = .comma ∨ t.kind = .semicolon) := by
  simpa using d.not_separator h

/-- A pending row is closed in the end. -/
theorem meaning_ne_nil {ts rest : List Token} :
    (d : Derivation .items ts rest) → ∀ pending, pending ≠ [] → d.meaning pending ≠ []
  | .itemsEnd, pending, hp => by
    have hend : (itemsEnd : Derivation .items ts ts).meaning pending =
        if pending.isEmpty then [] else [pending] := rfl
    simp [hend, hp]
  | .nested .., _, _ | .nestedSep .., _, _ | .flatSemicolon .., _, _ | .flatLast .., _, _ =>
    List.cons_ne_nil _ _
  | .flatComma _ first _ more, pending, _ =>
    more.meaning_ne_nil (pending ++ [first.meaning]) (by simp)

/-- A matrix without rows is one without items. -/
theorem meaning_nil_iff (d : Derivation .items ts rest) (h : kind? rest = some .rbracket) :
    d.meaning [] = [] ↔ kind? ts = some .rbracket := by
  cases d with
  | itemsEnd => exact ⟨fun _ => h, fun _ => rfl⟩
  | nested ht | nestedSep ht =>
    exact ⟨fun hm => (List.cons_ne_nil _ _ hm).elim, fun hc => by simp [ht] at hc⟩
  | flatComma _ first _ more =>
    exact ⟨fun hm => absurd hm (more.meaning_ne_nil [first.meaning] (by simp)),
      fun hc => absurd hc first.kind?_ne_rbracket⟩
  | flatSemicolon _ first =>
    exact ⟨fun hm => (List.cons_ne_nil _ _ hm).elim, fun hc => absurd hc first.kind?_ne_rbracket⟩
  | flatLast _ last =>
    exact ⟨fun hm => (List.cons_ne_nil _ _ hm).elim, fun hc => absurd hc last.kind?_ne_rbracket⟩

theorem not_ends_sum {t : Token} {op : BinOp} (hop : sumOp? t.kind = some op) :
    ¬ Symbol.sumTail.Ends (t :: ts) := by
  intro h
  have hc := h _ rfl
  cases hk : t.kind <;> simp [hk, closes, sumOp?] at hc hop

theorem not_ends_product {t : Token} {op : BinOp} (hop : productOp? t.kind = some op) :
    ¬ Symbol.termTail.Ends (t :: ts) := by
  intro h
  have hc := h _ rfl
  cases hk : t.kind <;> simp [hk, closes, sumOp?, productOp?] at hc hop

theorem not_ends_adjacent {t : Token} (hs : startsFactor t.kind = true) :
    ¬ Symbol.termTail.Ends (t :: ts) := by
  intro h
  have hc := h _ rfl
  cases hk : t.kind <;> simp [hk, closes, sumOp?, startsFactor] at hc hs

/-- A token that is the sign of a product begins no factor. -/
theorem product_not_adjacent {k : TokenKind} {op : BinOp} (hop : productOp? k = some op) :
    startsFactor k ≠ true := by
  cases k <;> simp [productOp?, startsFactor] at hop ⊢

theorem kind?_append (h : ts ≠ []) (w : List Token) : kind? (ts ++ w) = kind? ts := by
  cases ts with
  | nil => exact absurd rfl h
  | cons t ts => rfl

theorem ne_nil (d : Derivation S ts rest) (h : S.size + rest.length ≠ 0) : ts ≠ [] := by
  rintro rfl
  exact h (Nat.le_zero.mp d.length_le)

section Extend
variable {w : List Token}

theorem kind?_extend (d : Derivation S ts rest) (h : S.size + rest.length ≠ 0) {k : TokenKind}
    (hk : kind? ts ≠ some k) : kind? (ts ++ w) ≠ some k := by
  rwa [kind?_append (d.ne_nil h)]

/-- The same phrase with more tokens after it. They must not open a parenthesis, which would make a
name into a call. -/
def extend {S : Symbol} {ts rest : List Token} (hw : kind? w ≠ some .lparen) :
    Derivation S ts rest → Derivation S (ts ++ w) (rest ++ w)
  | sum first tail => sum (first.extend hw) (tail.extend hw)
  | sumEnd => sumEnd
  | sumNext op hop hsign right tail =>
    sumNext op hop (right.kind?_extend (by simp [Symbol.size]) hsign) (right.extend hw)
      (tail.extend hw)
  | term first tail => term (first.extend hw) (tail.extend hw)
  | termEnd => termEnd
  | product op hop right tail => product op hop (right.extend hw) (tail.extend hw)
  | adjacent hstart right tail => adjacent hstart (right.extend hw) (tail.extend hw)
  | base only => base (only.extend hw)
  | raised left ht exponent => raised (left.extend hw) ht (exponent.extend hw)
  | negative ht arg => negative ht (arg.extend hw)
  | parens ht inner hu => parens ht (inner.extend hw) hu
  | numeral t ht => numeral t ht
  | imaginary ht hi => imaginary ht hi
  | call t ht hi hu arg hr => call t ht hi hu (arg.extend hw) hr
  | name t ht hi hrest => name t ht hi (by cases rest with | nil => exact hw | cons => exact hrest)
  | matrix ht hne inner hu =>
    matrix ht (inner.kind?_extend (by simp) hne) (inner.extend hw) hu
  | itemsEnd => itemsEnd
  | nested ht first hu more => nested ht (first.extend hw) hu (more.extend hw)
  | nestedSep ht first hu hs more => nestedSep ht (first.extend hw) hu hs (more.extend hw)
  | flatComma hflat first hu more =>
    flatComma (first.kind?_extend (by simp) hflat) (first.extend hw) hu (more.extend hw)
  | flatSemicolon hflat first hu more =>
    flatSemicolon (first.kind?_extend (by simp) hflat) (first.extend hw) hu (more.extend hw)
  | flatLast hflat last hrest =>
    flatLast (last.kind?_extend (by simp [Symbol.size]) hflat) (last.extend hw)
      (by rw [kind?_append (by rintro rfl; cases hrest), hrest])
  | rowEnd => rowEnd
  | rowLast last => rowLast (last.extend hw)
  | rowNext first hu more => rowNext (first.extend hw) hu (more.extend hw)

/-- More tokens after a phrase do not change what it means. -/
theorem meaning_extend (hw : kind? w ≠ some .lparen) (d : Derivation S ts rest) :
    (d.extend hw).meaning = d.meaning := by
  induction d with
  | sumEnd | termEnd | numeral | imaginary | name | itemsEnd | rowEnd => rfl
  | base _ ih | parens _ _ _ ih => exact ih
  | negative _ _ ih => exact congrArg (Expr.unary .neg) ih
  | call t _ _ _ _ _ ih => exact congrArg (Expr.call t.text) ih
  | matrix _ _ _ _ ih => exact congrArg (fun items => Expr.matrix (items [])) ih
  | rowLast _ ih => exact congrArg (fun e => [e]) ih
  | flatLast _ _ _ ih => exact congrArg (fun e pending => [pending ++ [e]]) ih
  | sum _ _ ih ih' | term _ _ ih ih' => exact congr ih' ih
  | sumNext op _ _ _ _ ih ih' | product op _ _ _ ih ih' =>
    exact congr (congrArg (fun tail e left => tail (Expr.binary op left e)) ih') ih
  | adjacent _ _ _ ih ih' =>
    exact congr (congrArg (fun tail e left => tail (Expr.binary .mul left e)) ih') ih
  | raised _ _ _ ih ih' => exact congr (congrArg (Expr.binary .pow) ih) ih'
  | nested _ _ _ _ ih ih' | nestedSep _ _ _ _ _ ih ih' =>
    exact congr (congrArg (fun r more pending => r :: more pending) ih) ih'
  | flatComma _ _ _ _ ih ih' =>
    exact congr (congrArg (fun e (more : Symbol.items.Meaning) pending =>
      more (pending ++ [e])) ih) ih'
  | flatSemicolon _ _ _ _ ih ih' =>
    exact congr (congrArg (fun e more pending => (pending ++ [e]) :: more []) ih) ih'
  | rowNext _ _ _ ih ih' => exact congr (congrArg List.cons ih) ih'

end Extend
end Derivation

end Reckoner.Grammar
