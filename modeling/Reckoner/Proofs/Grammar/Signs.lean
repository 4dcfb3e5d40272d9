import Reckoner.Proofs.Grammar.Proper

namespace Reckoner.Grammar
open Reckoner.Parser

inductive Bracket where
  | group
  | matrix
  | row
  deriving DecidableEq

inductive Place where
  /-- Something that an operand has to follow. -/
  | start
  /-- Something that a row may follow. -/
  | item
  | operand
  /-- The sign of a sum. -/
  | sign
  deriving DecidableEq

def Place.closing : List Bracket → Place
  | .row :: _ => item
  | _ => operand

def Place.separated : List Bracket → Place
  | .matrix :: _ => item
  | _ => start

/-- Whether no minus stands right after the sign of a sum. The scan keeps the open brackets, since
the bracket that closes a row of a matrix ends no operand. -/
def apart : Place → List Bracket → List TokenKind → Bool
  | _, _, [] => true
  | p, bs, k :: ks =>
    match k with
    | .number | .identifier => apart .operand bs ks
    | .plus => apart .sign bs ks
    | .minus =>
      match p with
      | .operand => apart .sign bs ks
      | .sign => false
      | .start | .item => apart .start bs ks
    | .lparen => apart .start (.group :: bs) ks
    | .lbracket =>
      if p = .item then apart .start (.row :: bs) ks else apart .item (.matrix :: bs) ks
    | .rparen | .rbracket => apart (.closing bs) bs.tail ks
    | .comma | .semicolon => apart (.separated bs) bs ks
    | .assign | .question | .modulo | .matMul | .multiply | .divide | .power => apart .start bs ks

/-- Operands that may follow at a place, by their first token. -/
def Place.Admits (p : Place) (ts : List Token) : Prop :=
  match p with
  | .start => True
  | .item => kind? ts ≠ some .lbracket
  | .operand | .sign => kind? ts ≠ some .minus

/-- What a phrase means for the scan: it goes on after the phrase as after an operand, or within
the brackets around it. -/
def Symbol.Apart (S : Symbol) (ts rest : List Token) : Prop :=
  match S with
  | .sum | .term | .power | .factor => ∀ p bs, p.Admits ts →
      apart p bs (ts.map Token.kind) = apart .operand bs (rest.map Token.kind)
  | .sumTail | .termTail => ∀ bs,
      apart .operand bs (ts.map Token.kind) = apart .operand bs (rest.map Token.kind)
  | .items => ∀ bs, ∃ p, apart .item (.matrix :: bs) (ts.map Token.kind) =
      apart p (.matrix :: bs) (rest.map Token.kind)
  | .row => ∀ bs, ∃ p, apart .start (.row :: bs) (ts.map Token.kind) =
      apart p (.row :: bs) (rest.map Token.kind)

section Tokens
variable {t : Token} {ts : List Token} {op : BinOp} {bs : List Bracket}

/-- After the sign of a sum there must be no minus. -/
theorem apart_sum (hop : sumOp? t.kind = some op) :
    apart .operand bs ((t :: ts).map Token.kind) = apart .sign bs (ts.map Token.kind) := by
  rw [List.map_cons]
  cases hk : t.kind with
  | plus | minus => rfl
  | _ =>
    rw [hk] at hop
    cases hop

theorem apart_product (hop : productOp? t.kind = some op) (p : Place) :
    apart p bs ((t :: ts).map Token.kind) = apart .start bs (ts.map Token.kind) := by
  rw [List.map_cons]
  cases hk : t.kind with
  | multiply | divide | modulo | matMul => rfl
  | _ =>
    rw [hk] at hop
    cases hop

theorem apart_separator (ht : t.kind = .comma ∨ t.kind = .semicolon) (p : Place) :
    apart p bs ((t :: ts).map Token.kind) = apart (.separated bs) bs (ts.map Token.kind) := by
  rcases ht with ht | ht <;> rw [List.map_cons, ht] <;> rfl

/-- A row in brackets is passed over, and another item may follow it. -/
theorem apart_row {u : Token} {mid : List Token} (ht : t.kind = .lbracket)
    (h : Symbol.row.Apart ts (u :: mid)) (hu : u.kind = .rbracket) :
    apart .item (.matrix :: bs) ((t :: ts).map Token.kind) =
      apart .item (.matrix :: bs) (mid.map Token.kind) := by
  obtain ⟨p, hp⟩ := h (.matrix :: bs)
  rw [List.map_cons, ht]
  refine hp.trans ?_
  rw [List.map_cons, hu]
  rfl

end Tokens

/-- The scan finds nothing within a phrase. -/
theorem Derivation.apart {S : Symbol} {ts rest : List Token} (d : Derivation S ts rest) :
    S.Apart ts rest := by
  induction d with
  | sum _ _ ih ih' | term _ _ ih ih' =>
    intro p bs hp
    exact (ih p bs hp).trans (ih' bs)
  | sumEnd | termEnd => exact fun bs => rfl
  | sumNext op hop hsign _ _ ih ih' =>
    intro bs
    exact (apart_sum hop).trans ((ih .sign bs hsign).trans (ih' bs))
  | product op hop _ _ ih ih' =>
    intro bs
    exact (apart_product hop .operand).trans ((ih .start bs trivial).trans (ih' bs))
  | adjacent hstart _ _ ih ih' =>
    intro bs
    refine (ih .operand bs ?_).trans (ih' bs)
    intro hminus
    rw [Option.some.inj hminus] at hstart
    cases hstart
  | base _ ih => exact ih
  | raised _ ht _ ih ih' =>
    intro p bs hp
    rw [ih p bs hp, List.map_cons, ht]
    exact ih' .start bs trivial
  | negative ht _ ih =>
    intro p bs hp
    rw [List.map_cons, ht]
    cases p with
    | start | item => exact ih .start bs trivial
    | operand | sign => exact absurd (congrArg some ht) hp
  | parens ht _ hu ih =>
    intro p bs _
    rw [List.map_cons, ht]
    refine (ih .start (.group :: bs) trivial).trans ?_
    rw [List.map_cons, hu]
    rfl
  | numeral t ht | imaginary ht | name t ht =>
    intro p bs _
    rw [List.map_cons, ht]
    rfl
  | call t ht _ hu _ hw ih =>
    intro p bs _
    rw [List.map_cons, ht, List.map_cons, hu]
    refine (ih .start (.group :: bs) trivial).trans ?_
    rw [List.map_cons, hw]
    rfl
  | matrix ht _ _ hu ih =>
    intro p bs hp
    obtain ⟨q, hq⟩ := ih bs
    have hitem : p ≠ .item := by
      intro hitem
      subst hitem
      exact hp (congrArg some ht)
    rw [List.map_cons, ht]
    refine (if_neg hitem).trans (hq.trans ?_)
    rw [List.map_cons, hu]
    rfl
  | itemsEnd => exact fun bs => ⟨.item, rfl⟩
  | nested ht _ hu _ ih ih' =>
    intro bs
    obtain ⟨q, hq⟩ := ih' bs
    exact ⟨q, (apart_row ht ih hu).trans hq⟩
  | nestedSep ht _ hu hw _ ih ih' =>
    intro bs
    obtain ⟨q, hq⟩ := ih' bs
    exact ⟨q, (apart_row ht ih hu).trans ((apart_separator hw .item).trans hq)⟩
  | flatComma hflat _ hu _ ih ih' =>
    intro bs
    obtain ⟨q, hq⟩ := ih' bs
    exact ⟨q, (ih .item _ hflat).trans ((apart_separator (.inl hu) _).trans hq)⟩
  | flatSemicolon hflat _ hu _ ih ih' =>
    intro bs
    obtain ⟨q, hq⟩ := ih' bs
    exact ⟨q, (ih .item _ hflat).trans ((apart_separator (.inr hu) _).trans hq)⟩
  | flatLast hflat _ _ ih => exact fun bs => ⟨.operand, ih .item _ hflat⟩
  | rowEnd => exact fun bs => ⟨.start, rfl⟩
  | rowLast _ ih => exact fun bs => ⟨.operand, ih .start _ trivial⟩
  | rowNext _ hu _ ih ih' =>
    intro bs
    obtain ⟨q, hq⟩ := ih' bs
    exact ⟨q, (ih .start _ trivial).trans ((apart_separator (.inl hu) _).trans hq)⟩

/-- A line that is read has no minus right after the sign of a sum. -/
theorem apart_of_parse {ts : List Token} {o : Option Statement} (h : parse ts = .ok o) :
    apart .start [] (ts.map Token.kind) = true := by
  by_cases hts : ts = []
  · subst hts
    rfl
  obtain ⟨rest, hreads⟩ := parse_eq_ok.mp h
  obtain ⟨st, -, rfl, -⟩ := (reads_statement hts).mp hreads
  obtain ⟨d, -⟩ := line_of_parse h
  cases d with
  | expression d => exact d.apart .start [] trivial
  | assign x hx _ heq value =>
    rw [List.map_cons, hx, List.map_cons, heq]
    exact value.apart .start [] trivial
  | define f x hf _ hl hx _ hr heq body =>
    rw [List.map_cons, hf, List.map_cons, hl, List.map_cons, hx, List.map_cons, hr,
      List.map_cons, heq]
    exact body.apart .start [] trivial
  | request left heq hq =>
    rw [left.apart .start [] trivial, List.map_cons, heq, List.map_cons, hq]
    rfl
  | equation left heq right hq =>
    rw [left.apart .start [] trivial, List.map_cons, heq]
    refine (right.apart .start [] trivial).trans ?_
    rw [List.map_cons, hq]
    rfl

end Reckoner.Grammar
