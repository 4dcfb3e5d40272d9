import Reckoner.Proofs.Grammar

namespace Reckoner.Grammar.Derivation
variable {S : Symbol} {ts mid rest rest' : List Token} {t u w : Token}

/-- A phrase that, read as far as it goes, can be read in no other way. -/
def IsOnly (d : Derivation S ts rest) : Prop :=
  S.Ends rest → ∀ ⦃rest' : List Token⦄ (d' : Derivation S ts rest'), S.Ends rest' →
    (⟨rest, d⟩ : Σ r, Derivation S ts r) = ⟨rest', d'⟩

namespace IsOnly

section Sums
variable {right : Derivation .term ts mid} {tail : Derivation .sumTail mid rest}

/-- Where two rules could apply, the kinds of the next tokens tell them apart: a sum goes on for as
long as there are signs of one. -/
theorem sum (hr : right.IsOnly) (ht : tail.IsOnly) : (Derivation.sum right tail).IsOnly := by
  intro h _ d' h'
  cases d' with
  | sum right' tail' =>
    cases hr (tail.ends_term h) right' (tail'.ends_term h')
    cases ht h tail' h'
    rfl

theorem sumEnd : (sumEnd : Derivation .sumTail ts ts).IsOnly := by
  intro h _ d' h'
  cases d' with
  | sumEnd => rfl
  | sumNext op hop => exact absurd h (not_ends_sum hop)

theorem sumNext {op : BinOp} {hop : Parser.sumOp? t.kind = some op}
    {hsign : kind? ts ≠ some .minus} (hr : right.IsOnly) (ht : tail.IsOnly) :
    (Derivation.sumNext op hop hsign right tail).IsOnly := by
  intro h _ d' h'
  cases d' with
  | sumEnd => exact absurd h' (not_ends_sum hop)
  | sumNext op' hop' hsign' right' tail' =>
    cases hop.symm.trans hop'
    cases hr (tail.ends_term h) right' (tail'.ends_term h')
    cases ht h tail' h'
    rfl

end Sums

section Terms
variable {right : Derivation .power ts mid} {tail : Derivation .termTail mid rest}

theorem term (hr : right.IsOnly) (ht : tail.IsOnly) : (Derivation.term right tail).IsOnly := by
  intro h _ d' h'
  cases d' with
  | term right' tail' =>
    cases hr (tail.ends_power h) right' (tail'.ends_power h')
    cases ht h tail' h'
    rfl

theorem termEnd : (termEnd : Derivation .termTail ts ts).IsOnly := by
  intro h _ d' h'
  cases d' with
  | termEnd => rfl
  | product op hop => exact absurd h (not_ends_product hop)
  | adjacent hs => exact absurd h (not_ends_adjacent hs)

theorem product {op : BinOp} {hop : Parser.productOp? t.kind = some op} (hr : right.IsOnly)
    (ht : tail.IsOnly) : (Derivation.product op hop right tail).IsOnly := by
  intro h _ d' h'
  cases d' with
  | termEnd => exact absurd h' (not_ends_product hop)
  | product op' hop' right' tail' =>
    cases hop.symm.trans hop'
    cases hr (tail.ends_power h) right' (tail'.ends_power h')
    cases ht h tail' h'
    rfl
  | adjacent hs => exact absurd hs (product_not_adjacent hop)

theorem adjacent {right : Derivation .power (t :: ts) mid} {hs : Parser.startsFactor t.kind = true}
    (hr : right.IsOnly) (ht : tail.IsOnly) : (Derivation.adjacent hs right tail).IsOnly := by
  intro h _ d' h'
  cases d' with
  | termEnd => exact absurd h' (not_ends_adjacent hs)
  | product op hop => exact absurd hs (product_not_adjacent hop)
  | adjacent hs' right' tail' =>
    cases hr (tail.ends_power h) right' (tail'.ends_power h')
    cases ht h tail' h'
    rfl

end Terms

section Powers

/-- A power goes on if its sign follows. -/
theorem base {only : Derivation .factor ts rest} (ho : only.IsOnly) :
    (Derivation.base only).IsOnly := by
  intro h _ d' h'
  cases d' with
  | base only' =>
    cases ho trivial only' trivial
    rfl
  | raised left' ht' =>
    cases ho trivial left' trivial
    exact absurd (congrArg some ht') h

theorem raised {left : Derivation .factor ts (t :: mid)} {ht : t.kind = .power}
    {exponent : Derivation .power mid rest} (hl : left.IsOnly) (he : exponent.IsOnly) :
    (Derivation.raised left ht exponent).IsOnly := by
  intro h _ d' h'
  cases d' with
  | base only' =>
    cases hl trivial only' trivial
    exact absurd (congrArg some ht) h'
  | raised left' ht' exponent' =>
    cases hl trivial left' trivial
    cases he h exponent' h'
    rfl

end Powers

-- The kind of the first token tells which rule of a factor applies, but for the names: there it is
-- the name itself and the next token.
section Factors
variable {inner : Derivation .sum ts (u :: rest)}

theorem negative {ht : t.kind = .minus} {arg : Derivation .factor ts rest} (ha : arg.IsOnly) :
    (Derivation.negative ht arg).IsOnly := by
  intro _ _ d' _
  cases d' with
  | negative ht' arg' =>
    cases ha trivial arg' trivial
    rfl
  | parens ht' | matrix ht' | imaginary ht' => cases ht.symm.trans ht'
  | numeral _ ht' | call _ ht' | name _ ht' => cases ht.symm.trans ht'

theorem parens {ht : t.kind = .lparen} {hu : u.kind = .rparen} (hi : inner.IsOnly) :
    (Derivation.parens ht inner hu).IsOnly := by
  intro _ _ d' _
  cases d' with
  | parens ht' inner' hu' =>
    cases hi (ends_sum hu rfl _) inner' (ends_sum hu' rfl _)
    rfl
  | negative ht' | matrix ht' | imaginary ht' => cases ht.symm.trans ht'
  | numeral _ ht' | call _ ht' | name _ ht' => cases ht.symm.trans ht'

theorem numeral {ht : t.kind = .number} :
    (numeral t ht : Derivation .factor (t :: rest) rest).IsOnly := by
  intro _ _ d' _
  cases d' with
  | numeral => rfl
  | negative ht' | parens ht' | matrix ht' | imaginary ht' => cases ht.symm.trans ht'
  | call _ ht' | name _ ht' => cases ht.symm.trans ht'

theorem imaginary {ht : t.kind = .identifier} {hi : t.text = "i"} :
    (imaginary ht hi : Derivation .factor (t :: rest) rest).IsOnly := by
  intro _ _ d' _
  cases d' with
  | imaginary => rfl
  | negative ht' | parens ht' | matrix ht' => cases ht.symm.trans ht'
  | numeral _ ht' => cases ht.symm.trans ht'
  | call _ _ hi' | name _ _ hi' => exact absurd hi hi'

theorem call {ht : t.kind = .identifier} {hi : t.text ≠ "i"} {hw : w.kind = .lparen}
    {hu : u.kind = .rparen} (ha : inner.IsOnly) :
    (Derivation.call t ht hi hw inner hu).IsOnly := by
  intro _ _ d' _
  cases d' with
  | call _ _ _ _ inner' hu' =>
    cases ha (ends_sum hu rfl _) inner' (ends_sum hu' rfl _)
    rfl
  | name _ _ _ hrest => exact absurd (congrArg some hw) hrest
  | imaginary _ hi' => exact absurd hi' hi
  | negative ht' | parens ht' | matrix ht' => cases ht.symm.trans ht'
  | numeral _ ht' => cases ht.symm.trans ht'

theorem name {ht : t.kind = .identifier} {hi : t.text ≠ "i"} {hrest : kind? rest ≠ some .lparen} :
    (Derivation.name t ht hi hrest).IsOnly := by
  intro _ _ d' _
  cases d' with
  | name => rfl
  | call _ _ _ hu => exact absurd (congrArg some hu) hrest
  | imaginary _ hi' => exact absurd hi' hi
  | negative ht' | parens ht' | matrix ht' => cases ht.symm.trans ht'
  | numeral _ ht' => cases ht.symm.trans ht'

theorem matrix {ht : t.kind = .lbracket} {hne : kind? ts ≠ some .rbracket}
    {inner : Derivation .items ts (u :: rest)} {hu : u.kind = .rbracket} (hi : inner.IsOnly) :
    (Derivation.matrix ht hne inner hu).IsOnly := by
  intro _ _ d' _
  cases d' with
  | matrix ht' hne' inner' hu' =>
    cases hi (congrArg some hu) inner' (congrArg some hu')
    rfl
  | negative ht' | parens ht' | imaginary ht' => cases ht.symm.trans ht'
  | numeral _ ht' | call _ ht' | name _ ht' => cases ht.symm.trans ht'

end Factors

section Items
variable {more : Derivation .items mid rest}

/-- Items end where the brackets close, and nowhere else. -/
theorem itemsEnd : (itemsEnd : Derivation .items ts ts).IsOnly := by
  intro h _ d' h'
  cases d' with
  | itemsEnd => rfl
  | nested ht | nestedSep ht => cases ht.symm.trans (Option.some.inj h)
  | flatComma _ first | flatSemicolon _ first => exact absurd h first.kind?_ne_rbracket
  | flatLast _ last => exact absurd h last.kind?_ne_rbracket

/-- Rows in brackets of their own begin with a bracket, and a separator after one belongs to it. -/
theorem nested {ht : t.kind = .lbracket} {first : Derivation .row ts (u :: mid)}
    {hu : u.kind = .rbracket} (hf : first.IsOnly) (hm : more.IsOnly) :
    (Derivation.nested ht first hu more).IsOnly := by
  intro h _ d' h'
  cases d' with
  | itemsEnd => cases ht.symm.trans (Option.some.inj h')
  | nested ht' first' hu' more' =>
    cases hf (congrArg some hu) first' (congrArg some hu')
    cases hm h more' h'
    rfl
  | nestedSep ht' first' hu' hw' =>
    cases hf (congrArg some hu) first' (congrArg some hu')
    exact absurd hw' (more.head_not_separator h)
  | flatComma hflat | flatSemicolon hflat | flatLast hflat =>
    exact absurd (congrArg some ht) hflat

theorem nestedSep {ht : t.kind = .lbracket} {first : Derivation .row ts (u :: w :: mid)}
    {hu : u.kind = .rbracket} {hw : w.kind = .comma ∨ w.kind = .semicolon} (hf : first.IsOnly)
    (hm : more.IsOnly) : (Derivation.nestedSep ht first hu hw more).IsOnly := by
  intro h _ d' h'
  cases d' with
  | itemsEnd => cases ht.symm.trans (Option.some.inj h')
  | nested ht' first' hu' more' =>
    cases hf (congrArg some hu) first' (congrArg some hu')
    exact absurd hw (more'.head_not_separator h')
  | nestedSep ht' first' hu' hw' more' =>
    cases hf (congrArg some hu) first' (congrArg some hu')
    cases hm h more' h'
    rfl
  | flatComma hflat | flatSemicolon hflat | flatLast hflat =>
    exact absurd (congrArg some ht) hflat

/-- What follows the element tells how the items go on. -/
theorem flatComma {hflat : kind? ts ≠ some .lbracket} {first : Derivation .sum ts (u :: mid)}
    {hu : u.kind = .comma} (hf : first.IsOnly) (hm : more.IsOnly) :
    (Derivation.flatComma hflat first hu more).IsOnly := by
  intro h _ d' h'
  cases d' with
  | itemsEnd => exact absurd h' first.kind?_ne_rbracket
  | nested ht' | nestedSep ht' => exact absurd (congrArg some ht') hflat
  | flatComma hflat' first' hu' more' =>
    cases hf (ends_sum hu rfl _) first' (ends_sum hu' rfl _)
    cases hm h more' h'
    rfl
  | flatSemicolon hflat' first' hu' =>
    cases hf (ends_sum hu rfl _) first' (ends_sum hu' rfl _)
    cases hu.symm.trans hu'
  | flatLast hflat' last' hrest' =>
    cases hf (ends_sum hu rfl _) last' (ends_sum_of_rbracket hrest')
    cases hu.symm.trans (Option.some.inj hrest')

theorem flatSemicolon {hflat : kind? ts ≠ some .lbracket} {first : Derivation .sum ts (u :: mid)}
    {hu : u.kind = .semicolon} (hf : first.IsOnly) (hm : more.IsOnly) :
    (Derivation.flatSemicolon hflat first hu more).IsOnly := by
  intro h _ d' h'
  cases d' with
  | itemsEnd => exact absurd h' first.kind?_ne_rbracket
  | nested ht' | nestedSep ht' => exact absurd (congrArg some ht') hflat
  | flatComma hflat' first' hu' =>
    cases hf (ends_sum hu rfl _) first' (ends_sum hu' rfl _)
    cases hu.symm.trans hu'
  | flatSemicolon hflat' first' hu' more' =>
    cases hf (ends_sum hu rfl _) first' (ends_sum hu' rfl _)
    cases hm h more' h'
    rfl
  | flatLast hflat' last' hrest' =>
    cases hf (ends_sum hu rfl _) last' (ends_sum_of_rbracket hrest')
    cases hu.symm.trans (Option.some.inj hrest')

theorem flatLast {hflat : kind? ts ≠ some .lbracket} {last : Derivation .sum ts rest}
    {hrest : kind? rest = some .rbracket} (hl : last.IsOnly) :
    (Derivation.flatLast hflat last hrest).IsOnly := by
  intro h _ d' h'
  cases d' with
  | itemsEnd => exact absurd h' last.kind?_ne_rbracket
  | nested ht' | nestedSep ht' => exact absurd (congrArg some ht') hflat
  | flatComma hflat' first' hu' | flatSemicolon hflat' first' hu' =>
    cases hl (ends_sum_of_rbracket hrest) first' (ends_sum hu' rfl _)
    cases hu'.symm.trans (Option.some.inj hrest)
  | flatLast hflat' last' =>
    cases hl (ends_sum_of_rbracket h) last' (ends_sum_of_rbracket h')
    rfl

end Items

section Rows

theorem rowEnd : (rowEnd : Derivation .row ts ts).IsOnly := by
  intro h _ d' h'
  cases d' with
  | rowEnd => rfl
  | rowLast last => exact absurd h last.kind?_ne_rbracket
  | rowNext first => exact absurd h first.kind?_ne_rbracket

theorem rowLast {last : Derivation .sum ts rest} (hl : last.IsOnly) :
    (Derivation.rowLast last).IsOnly := by
  intro h _ d' h'
  cases d' with
  | rowEnd => exact absurd h' last.kind?_ne_rbracket
  | rowLast last' =>
    cases hl (ends_sum_of_rbracket h) last' (ends_sum_of_rbracket h')
    rfl
  | rowNext first' hu' =>
    cases hl (ends_sum_of_rbracket h) first' (ends_sum hu' rfl _)
    cases hu'.symm.trans (Option.some.inj h)

theorem rowNext {first : Derivation .sum ts (u :: mid)} {hu : u.kind = .comma}
    {more : Derivation .row mid rest} (hf : first.IsOnly) (hm : more.IsOnly) :
    (Derivation.rowNext first hu more).IsOnly := by
  intro h _ d' h'
  cases d' with
  | rowEnd => exact absurd h' first.kind?_ne_rbracket
  | rowLast last' =>
    cases hf (ends_sum hu rfl _) last' (ends_sum_of_rbracket h')
    cases hu.symm.trans (Option.some.inj h')
  | rowNext first' hu' more' =>
    cases hf (ends_sum hu rfl _) first' (ends_sum hu' rfl _)
    cases hm h more' h'
    rfl

end Rows
end IsOnly

theorem isOnly (d : Derivation S ts rest) : d.IsOnly := by
  induction d with
  | sum _ _ ih ih' => exact ih.sum ih'
  | sumEnd => exact .sumEnd
  | sumNext _ _ _ _ _ ih ih' => exact ih.sumNext ih'
  | term _ _ ih ih' => exact ih.term ih'
  | termEnd => exact .termEnd
  | product _ _ _ _ ih ih' => exact ih.product ih'
  | adjacent _ _ _ ih ih' => exact ih.adjacent ih'
  | base _ ih => exact ih.base
  | raised _ _ _ ih ih' => exact ih.raised ih'
  | negative _ _ ih => exact ih.negative
  | parens _ _ _ ih => exact ih.parens
  | numeral => exact .numeral
  | imaginary => exact .imaginary
  | call _ _ _ _ _ _ ih => exact ih.call
  | name => exact .name
  | matrix _ _ _ _ ih => exact ih.matrix
  | itemsEnd => exact .itemsEnd
  | nested _ _ _ _ ih ih' => exact ih.nested ih'
  | nestedSep _ _ _ _ _ ih ih' => exact ih.nestedSep ih'
  | flatComma _ _ _ _ ih ih' => exact ih.flatComma ih'
  | flatSemicolon _ _ _ _ ih ih' => exact ih.flatSemicolon ih'
  | flatLast _ _ _ ih => exact ih.flatLast
  | rowEnd => exact .rowEnd
  | rowLast _ ih => exact ih.rowLast
  | rowNext _ _ _ ih ih' => exact ih.rowNext ih'

/-- There is one way to read a phrase that is read as far as it goes. -/
theorem unique (d : Derivation S ts rest) (d' : Derivation S ts rest') (h : S.Ends rest)
    (h' : S.Ends rest') :
    (⟨rest, d⟩ : Σ r, Derivation S ts r) = ⟨rest', d'⟩ :=
  d.isOnly h d' h'

end Reckoner.Grammar.Derivation
