import Reckoner.Proofs.Alike
import Reckoner.Proofs.Grammar.Proper

namespace Reckoner

/-- Tokens that stand for the same but for a name. -/
structure Token.Alike (N : String → String → Prop) (t u : Token) : Prop where
  kind : u.kind = t.kind
  name : t.kind = .identifier → N t.text u.text
  numeral : t.kind = .number → u.text = t.text

inductive Statement.Alike (N : String → String → Prop) : Statement → Statement → Prop where
  | expression {e e' : Expr} (h : e.Alike N N e') : Alike N (.expression e) (.expression e')
  | assign {x x' : String} {e e' : Expr} (hx : N x x') (h : e.Alike N N e') :
      Alike N (.assign x e) (.assign x' e')
  | define {f f' x x' : String} {e e' : Expr} (hf : N f f') (hx : N x x') (h : e.Alike N N e') :
      Alike N (.define f x e) (.define f' x' e')
  | request {l l' : Expr} (h : l.Alike N N l') : Alike N (.equation l none) (.equation l' none)
  | equation {l l' r r' : Expr} (hl : l.Alike N N l') (hr : r.Alike N N r') :
      Alike N (.equation l (some r)) (.equation l' (some r'))

namespace Grammar
open Reckoner.Parser

/-- Names that count as the same, and not one of them as the imaginary unit alone. -/
structure KeepsUnit (N : String → String → Prop) : Prop where
  unit {x x' : String} (h : N x x') : x' = "i" ↔ x = "i"
  reserved {x x' : String} (h : N x x') : Text.lower x' = "i" ↔ Text.lower x = "i"

/-- Meanings that differ in names only, as soon as what they await does. -/
def Symbol.Alike (N : String → String → Prop) : (S : Symbol) → S.Meaning → S.Meaning → Prop
  | .sum | .term | .power | .factor => Expr.Alike N N
  | .sumTail | .termTail => fun tail tail' =>
      ∀ left left' : Expr, left.Alike N N left' → (tail left).Alike N N (tail' left')
  | .items => fun items items' => ∀ pending pending' : List Expr,
      List.Forall₂ (Expr.Alike N N) pending pending' →
        List.Forall₂ (List.Forall₂ (Expr.Alike N N)) (items pending) (items' pending')
  | .row => List.Forall₂ (Expr.Alike N N)

section Tokens
variable {N : String → String → Prop} {t : Token} {ts us : List Token}

theorem kind?_alike (h : List.Forall₂ (Token.Alike N) ts us) : kind? us = kind? ts := by
  cases h with
  | nil => rfl
  | cons ht _ => exact congrArg some ht.kind

theorem cons_alike (h : List.Forall₂ (Token.Alike N) (t :: ts) us) :
    ∃ u us', us = u :: us' ∧ Token.Alike N t u ∧ List.Forall₂ (Token.Alike N) ts us' := by
  cases h with
  | cons ht hts => exact ⟨_, _, rfl, ht, hts⟩

theorem append_alike {es es' : List Expr} {e e' : Expr}
    (hes : List.Forall₂ (Expr.Alike N N) es es') (he : e.Alike N N e') :
    List.Forall₂ (Expr.Alike N N) (es ++ [e]) (es' ++ [e']) :=
  List.rel_append hes (.cons he .nil)

end Tokens

namespace Derivation

/-- A phrase that can be taken off tokens that are alike, with a meaning that is alike. -/
def HasAlike (N : String → String → Prop) {S : Symbol} {ts rest : List Token}
    (d : Derivation S ts rest) : Prop :=
  ∀ ⦃us : List Token⦄, List.Forall₂ (Token.Alike N) ts us →
    ∃ rest', List.Forall₂ (Token.Alike N) rest rest' ∧
      ∃ d' : Derivation S us rest', S.Alike N d.meaning d'.meaning

namespace HasAlike
variable {N : String → String → Prop} {S : Symbol} {ts mid rest us : List Token} {t u w : Token}

/-- The phrase and the token that stands after it. -/
theorem before {d : Derivation S ts (t :: rest)} (hd : d.HasAlike N)
    (h : List.Forall₂ (Token.Alike N) ts us) :
    ∃ t' rest', Token.Alike N t t' ∧ List.Forall₂ (Token.Alike N) rest rest' ∧
      ∃ d' : Derivation S us (t' :: rest'), S.Alike N d.meaning d'.meaning := by
  obtain ⟨rest', hrest, d', hm⟩ := hd h
  obtain ⟨t', rest', rfl, ht, hrest⟩ := cons_alike hrest
  exact ⟨t', rest', ht, hrest, d', hm⟩

section Sums
variable {right : Derivation .term ts mid} {tail : Derivation .sumTail mid rest}

/-- A sum is taken off part by part: its first term, then its tail. -/
theorem sum (hr : right.HasAlike N) (ht : tail.HasAlike N) :
    (Derivation.sum right tail).HasAlike N := by
  intro us h
  obtain ⟨mid', hmid, right', hright⟩ := hr h
  obtain ⟨rest', hrest, tail', htail⟩ := ht hmid
  exact ⟨rest', hrest, .sum right' tail', htail _ _ hright⟩

theorem sumNext {op : BinOp} {hop : sumOp? t.kind = some op} {hsign : kind? ts ≠ some .minus}
    (hr : right.HasAlike N) (ht : tail.HasAlike N) :
    (Derivation.sumNext op hop hsign right tail).HasAlike N := by
  intro us h
  obtain ⟨t', us, rfl, ht', hus⟩ := cons_alike h
  obtain ⟨mid', hmid, right', hright⟩ := hr hus
  obtain ⟨rest', hrest, tail', htail⟩ := ht hmid
  rw [← ht'.kind] at hop
  rw [← kind?_alike hus] at hsign
  exact ⟨rest', hrest, .sumNext op hop hsign right' tail',
    fun _ _ hleft => htail _ _ (.binary op hleft hright)⟩

end Sums

section Terms
variable {right : Derivation .power ts mid} {tail : Derivation .termTail mid rest}

theorem term (hr : right.HasAlike N) (ht : tail.HasAlike N) :
    (Derivation.term right tail).HasAlike N := by
  intro us h
  obtain ⟨mid', hmid, right', hright⟩ := hr h
  obtain ⟨rest', hrest, tail', htail⟩ := ht hmid
  exact ⟨rest', hrest, .term right' tail', htail _ _ hright⟩

theorem product {op : BinOp} {hop : productOp? t.kind = some op} (hr : right.HasAlike N)
    (ht : tail.HasAlike N) : (Derivation.product op hop right tail).HasAlike N := by
  intro us h
  obtain ⟨t', us, rfl, ht', hus⟩ := cons_alike h
  obtain ⟨mid', hmid, right', hright⟩ := hr hus
  obtain ⟨rest', hrest, tail', htail⟩ := ht hmid
  rw [← ht'.kind] at hop
  exact ⟨rest', hrest, .product op hop right' tail',
    fun _ _ hleft => htail _ _ (.binary op hleft hright)⟩

theorem adjacent {right : Derivation .power (t :: ts) mid} {hs : startsFactor t.kind = true}
    (hr : right.HasAlike N) (ht : tail.HasAlike N) :
    (Derivation.adjacent hs right tail).HasAlike N := by
  intro us h
  obtain ⟨mid', hmid, right', hright⟩ := hr h
  obtain ⟨rest', hrest, tail', htail⟩ := ht hmid
  obtain ⟨t', us, rfl, ht', -⟩ := cons_alike h
  rw [← ht'.kind] at hs
  exact ⟨rest', hrest, .adjacent hs right' tail',
    fun _ _ hleft => htail _ _ (.binary .mul hleft hright)⟩

theorem raised {left : Derivation .factor ts (t :: mid)} {ht : t.kind = .power}
    {exponent : Derivation .power mid rest} (hl : left.HasAlike N) (he : exponent.HasAlike N) :
    (Derivation.raised left ht exponent).HasAlike N := by
  intro us h
  obtain ⟨t', mid', ht', hmid, left', hleft⟩ := hl.before h
  obtain ⟨rest', hrest, exponent', hexponent⟩ := he hmid
  exact ⟨rest', hrest, .raised left' (ht'.kind.trans ht) exponent', .binary .pow hleft hexponent⟩

end Terms

section Factors
variable {inner : Derivation .sum ts (u :: rest)}

/-- Alike tokens are of one kind, so the same rule applies to them. -/
theorem negative {ht : t.kind = .minus} {arg : Derivation .factor ts rest}
    (ha : arg.HasAlike N) : (Derivation.negative ht arg).HasAlike N := by
  intro us h
  obtain ⟨t', us, rfl, ht', hus⟩ := cons_alike h
  obtain ⟨rest', hrest, arg', harg⟩ := ha hus
  exact ⟨rest', hrest, .negative (ht'.kind.trans ht) arg', .unary .neg harg⟩

theorem parens {ht : t.kind = .lparen} {hu : u.kind = .rparen} (hi : inner.HasAlike N) :
    (Derivation.parens ht inner hu).HasAlike N := by
  intro us h
  obtain ⟨t', us, rfl, ht', hus⟩ := cons_alike h
  obtain ⟨u', rest', hu', hrest, inner', hinner⟩ := hi.before hus
  exact ⟨rest', hrest, .parens (ht'.kind.trans ht) inner' (hu'.kind.trans hu), hinner⟩

theorem numeral {ht : t.kind = .number} :
    (numeral t ht : Derivation .factor (t :: rest) rest).HasAlike N := by
  intro us h
  obtain ⟨t', us, rfl, ht', hus⟩ := cons_alike h
  refine ⟨us, hus, .numeral t' (ht'.kind.trans ht), ?_⟩
  simp only [meaning, ht'.numeral ht]
  exact .number t.text

/-- The imaginary unit is told from other names by its text, which `N` has to keep. -/
theorem imaginary (hN : KeepsUnit N) {ht : t.kind = .identifier} {hi : t.text = "i"} :
    (imaginary ht hi : Derivation .factor (t :: rest) rest).HasAlike N := by
  intro us h
  obtain ⟨t', us, rfl, ht', hus⟩ := cons_alike h
  exact ⟨us, hus, .imaginary (ht'.kind.trans ht) ((hN.unit (ht'.name ht)).mpr hi), .imaginary⟩

theorem call (hN : KeepsUnit N) {ht : t.kind = .identifier} {hi : t.text ≠ "i"}
    {hw : w.kind = .lparen} {hu : u.kind = .rparen} (ha : inner.HasAlike N) :
    (Derivation.call t ht hi hw inner hu).HasAlike N := by
  intro us h
  obtain ⟨t', us, rfl, ht', hus⟩ := cons_alike h
  obtain ⟨w', us, rfl, hw', hus⟩ := cons_alike hus
  obtain ⟨u', rest', hu', hrest, arg', harg⟩ := ha.before hus
  have hname := ht'.name ht
  exact ⟨rest', hrest, .call t' (ht'.kind.trans ht) (mt (hN.unit hname).mp hi)
    (hw'.kind.trans hw) arg' (hu'.kind.trans hu), .call hname harg⟩

theorem name (hN : KeepsUnit N) {ht : t.kind = .identifier} {hi : t.text ≠ "i"}
    {hrest : kind? rest ≠ some .lparen} : (Derivation.name t ht hi hrest).HasAlike N := by
  intro us h
  obtain ⟨t', us, rfl, ht', hus⟩ := cons_alike h
  have hname := ht'.name ht
  rw [← kind?_alike hus] at hrest
  exact ⟨us, hus, .name t' (ht'.kind.trans ht) (mt (hN.unit hname).mp hi) hrest, .var hname⟩

theorem matrix {ht : t.kind = .lbracket} {hne : kind? ts ≠ some .rbracket}
    {inner : Derivation .items ts (u :: rest)} {hu : u.kind = .rbracket}
    (hi : inner.HasAlike N) : (Derivation.matrix ht hne inner hu).HasAlike N := by
  intro us h
  obtain ⟨t', us, rfl, ht', hus⟩ := cons_alike h
  obtain ⟨u', rest', hu', hrest, inner', hinner⟩ := hi.before hus
  rw [← kind?_alike hus] at hne
  exact ⟨rest', hrest, .matrix (ht'.kind.trans ht) hne inner' (hu'.kind.trans hu),
    .matrix (hinner [] [] .nil)⟩

end Factors

section Items
variable {more : Derivation .items mid rest}

/-- The rows that are pending may differ as well, if they are alike. -/
theorem itemsEnd : (itemsEnd : Derivation .items ts ts).HasAlike N := by
  intro us h
  refine ⟨us, h, .itemsEnd, fun pending pending' hpending => ?_⟩
  cases hpending with
  | nil => exact .nil
  | cons he hes => exact .cons (.cons he hes) .nil

theorem nested {ht : t.kind = .lbracket} {first : Derivation .row ts (u :: mid)}
    {hu : u.kind = .rbracket} (hf : first.HasAlike N) (hm : more.HasAlike N) :
    (Derivation.nested ht first hu more).HasAlike N := by
  intro us h
  obtain ⟨t', us, rfl, ht', hus⟩ := cons_alike h
  obtain ⟨u', mid', hu', hmid, first', hfirst⟩ := hf.before hus
  obtain ⟨rest', hrest, more', hmore⟩ := hm hmid
  exact ⟨rest', hrest, .nested (ht'.kind.trans ht) first' (hu'.kind.trans hu) more',
    fun _ _ hpending => .cons hfirst (hmore _ _ hpending)⟩

theorem nestedSep {ht : t.kind = .lbracket} {first : Derivation .row ts (u :: w :: mid)}
    {hu : u.kind = .rbracket} {hw : w.kind = .comma ∨ w.kind = .semicolon}
    (hf : first.HasAlike N) (hm : more.HasAlike N) :
    (Derivation.nestedSep ht first hu hw more).HasAlike N := by
  intro us h
  obtain ⟨t', us, rfl, ht', hus⟩ := cons_alike h
  obtain ⟨u', mid', hu', hmid, first', hfirst⟩ := hf.before hus
  obtain ⟨w', mid', rfl, hw', hmid⟩ := cons_alike hmid
  obtain ⟨rest', hrest, more', hmore⟩ := hm hmid
  rw [← hw'.kind] at hw
  exact ⟨rest', hrest, .nestedSep (ht'.kind.trans ht) first' (hu'.kind.trans hu) hw more',
    fun _ _ hpending => .cons hfirst (hmore _ _ hpending)⟩

theorem flatComma {hflat : kind? ts ≠ some .lbracket} {first : Derivation .sum ts (u :: mid)}
    {hu : u.kind = .comma} (hf : first.HasAlike N) (hm : more.HasAlike N) :
    (Derivation.flatComma hflat first hu more).HasAlike N := by
  intro us h
  obtain ⟨u', mid', hu', hmid, first', hfirst⟩ := hf.before h
  obtain ⟨rest', hrest, more', hmore⟩ := hm hmid
  rw [← kind?_alike h] at hflat
  exact ⟨rest', hrest, .flatComma hflat first' (hu'.kind.trans hu) more',
    fun _ _ hpending => hmore _ _ (append_alike hpending hfirst)⟩

theorem flatSemicolon {hflat : kind? ts ≠ some .lbracket} {first : Derivation .sum ts (u :: mid)}
    {hu : u.kind = .semicolon} (hf : first.HasAlike N) (hm : more.HasAlike N) :
    (Derivation.flatSemicolon hflat first hu more).HasAlike N := by
  intro us h
  obtain ⟨u', mid', hu', hmid, first', hfirst⟩ := hf.before h
  obtain ⟨rest', hrest, more', hmore⟩ := hm hmid
  rw [← kind?_alike h] at hflat
  exact ⟨rest', hrest, .flatSemicolon hflat first' (hu'.kind.trans hu) more',
    fun _ _ hpending => .cons (append_alike hpending hfirst) (hmore [] [] .nil)⟩

theorem flatLast {hflat : kind? ts ≠ some .lbracket} {last : Derivation .sum ts rest}
    {hrest : kind? rest = some .rbracket} (hl : last.HasAlike N) :
    (Derivation.flatLast hflat last hrest).HasAlike N := by
  intro us h
  obtain ⟨rest', hrest', last', hlast⟩ := hl h
  rw [← kind?_alike h] at hflat
  rw [← kind?_alike hrest'] at hrest
  exact ⟨rest', hrest', .flatLast hflat last' hrest,
    fun _ _ hpending => .cons (append_alike hpending hlast) .nil⟩

theorem rowNext {first : Derivation .sum ts (u :: mid)} {hu : u.kind = .comma}
    {more : Derivation .row mid rest} (hf : first.HasAlike N) (hm : more.HasAlike N) :
    (Derivation.rowNext first hu more).HasAlike N := by
  intro us h
  obtain ⟨u', mid', hu', hmid, first', hfirst⟩ := hf.before h
  obtain ⟨rest', hrest, more', hmore⟩ := hm hmid
  exact ⟨rest', hrest, .rowNext first' (hu'.kind.trans hu) more', .cons hfirst hmore⟩

end Items
end HasAlike

/-- Every phrase can be taken off tokens that are alike. -/
theorem alike {N : String → String → Prop} (hN : KeepsUnit N) {S : Symbol}
    {ts rest : List Token} (d : Derivation S ts rest) : d.HasAlike N := by
  induction d with
  | sum _ _ ih ih' => exact ih.sum ih'
  | sumEnd => exact fun us h => ⟨us, h, .sumEnd, fun _ _ hleft => hleft⟩
  | sumNext _ _ _ _ _ ih ih' => exact ih.sumNext ih'
  | term _ _ ih ih' => exact ih.term ih'
  | termEnd => exact fun us h => ⟨us, h, .termEnd, fun _ _ hleft => hleft⟩
  | product _ _ _ _ ih ih' => exact ih.product ih'
  | adjacent _ _ _ ih ih' => exact ih.adjacent ih'
  | base _ ih =>
    intro us h
    obtain ⟨rest', hrest, only, honly⟩ := ih h
    exact ⟨rest', hrest, .base only, honly⟩
  | raised _ _ _ ih ih' => exact ih.raised ih'
  | negative _ _ ih => exact ih.negative
  | parens _ _ _ ih => exact ih.parens
  | numeral => exact .numeral
  | imaginary => exact .imaginary hN
  | call _ _ _ _ _ _ ih => exact ih.call hN
  | name => exact .name hN
  | matrix _ _ _ _ ih => exact ih.matrix
  | itemsEnd => exact .itemsEnd
  | nested _ _ _ _ ih ih' => exact ih.nested ih'
  | nestedSep _ _ _ _ _ ih ih' => exact ih.nestedSep ih'
  | flatComma _ _ _ _ ih ih' => exact ih.flatComma ih'
  | flatSemicolon _ _ _ _ ih ih' => exact ih.flatSemicolon ih'
  | flatLast _ _ _ ih => exact ih.flatLast
  | rowEnd => exact fun us h => ⟨us, h, .rowEnd, .nil⟩
  | rowLast _ ih =>
    intro us h
    obtain ⟨rest', hrest, last, hlast⟩ := ih h
    exact ⟨rest', hrest, .rowLast last, .cons hlast .nil⟩
  | rowNext _ _ _ ih ih' => exact ih.rowNext ih'

end Derivation

section Lines
variable {N : String → String → Prop} {ts us : List Token}

theorem opensWithName_alike (h : List.Forall₂ (Token.Alike N) ts us) :
    opensWithName us = opensWithName ts := by
  have hkinds : us.map Token.kind = ts.map Token.kind := by
    induction h with
    | nil => rfl
    | cons ht _ ih => rw [List.map_cons, List.map_cons, ht.kind, ih]
  rw [opensWithName, hkinds, opensWithName]

theorem Derivation.alike_nil (hN : KeepsUnit N) {S : Symbol} (d : Derivation S ts [])
    (h : List.Forall₂ (Token.Alike N) ts us) :
    ∃ d' : Derivation S us [], S.Alike N d.meaning d'.meaning := by
  obtain ⟨rest, hrest, d', hd⟩ := d.alike hN h
  cases hrest
  exact ⟨d', hd⟩

/-- The kind of a statement depends on the kinds of tokens, so alike lines make statements of one
kind. -/
theorem Line.alike (hN : KeepsUnit N) (d : Line ts) (h : List.Forall₂ (Token.Alike N) ts us) :
    ∃ d' : Line us, d.statement.Alike N d'.statement := by
  cases d with
  | expression d =>
    obtain ⟨d', hd⟩ := d.alike_nil hN h
    exact ⟨.expression d', .expression hd⟩
  | assign x hx hi heq value =>
    obtain ⟨x', us, rfl, hx', h⟩ := cons_alike h
    obtain ⟨eq, us, rfl, heq', h⟩ := cons_alike h
    obtain ⟨value', hv⟩ := value.alike_nil hN h
    have hname := hx'.name hx
    exact ⟨.assign x' (hx'.kind.trans hx) (mt (hN.reserved hname).mp hi) (heq'.kind.trans heq)
      value', .assign hname hv⟩
  | define f x hf hfi hl hx hxi hr heq body =>
    obtain ⟨f', us, rfl, hf', h⟩ := cons_alike h
    obtain ⟨l, us, rfl, hl', h⟩ := cons_alike h
    obtain ⟨x', us, rfl, hx', h⟩ := cons_alike h
    obtain ⟨r, us, rfl, hr', h⟩ := cons_alike h
    obtain ⟨eq, us, rfl, heq', h⟩ := cons_alike h
    obtain ⟨body', hb⟩ := body.alike_nil hN h
    have hfname := hf'.name hf
    have hxname := hx'.name hx
    exact ⟨.define f' x' (hf'.kind.trans hf) (mt (hN.reserved hfname).mp hfi) (hl'.kind.trans hl)
      (hx'.kind.trans hx) (mt (hN.reserved hxname).mp hxi) (hr'.kind.trans hr)
      (heq'.kind.trans heq) body', .define hfname hxname hb⟩
  | request left heq hq hts =>
    obtain ⟨rest, hrest, left', hl⟩ := left.alike hN h
    obtain ⟨eq, rest, rfl, heq', hrest⟩ := cons_alike hrest
    obtain ⟨q, rest, rfl, hq', hrest⟩ := cons_alike hrest
    cases hrest
    rw [← opensWithName_alike h] at hts
    exact ⟨.request left' (heq'.kind.trans heq) (hq'.kind.trans hq) hts, .request hl⟩
  | equation left heq right hq hts =>
    obtain ⟨rest, hrest, left', hl⟩ := left.alike hN h
    obtain ⟨eq, mid, rfl, heq', hmid⟩ := cons_alike hrest
    obtain ⟨rest, hrest, right', hr⟩ := right.alike hN hmid
    obtain ⟨q, rest, rfl, hq', hrest⟩ := cons_alike hrest
    cases hrest
    rw [← opensWithName_alike h] at hts
    exact ⟨.equation left' (heq'.kind.trans heq) right' (hq'.kind.trans hq) hts,
      .equation hl hr⟩

/-- Lines of tokens that are alike make statements that are alike. -/
theorem parse_alike (hN : KeepsUnit N) (h : List.Forall₂ (Token.Alike N) ts us)
    {st : Statement} (hp : parse ts = .ok (some st)) :
    ∃ st', parse us = .ok (some st') ∧ st.Alike N st' := by
  obtain ⟨d, rfl⟩ := line_of_parse hp
  obtain ⟨d', hd⟩ := d.alike hN h
  have hus : us ≠ [] := by
    intro hnil
    subst hnil
    cases h
    cases hp
  exact ⟨d'.statement, (parse_eq_some_iff hus).mpr ⟨d', rfl⟩, hd⟩

end Lines
end Grammar
end Reckoner
