import Reckoner.Expr.Node
import Reckoner.Proofs.Expr
import Reckoner.Proofs.Grammar.Lines

namespace Reckoner

/-- Expressions as the grammar has them, with no other signs and no data in their places. -/
inductive Expr.IsProper : Expr → Prop where
  | number (t : String) : IsProper (.number t)
  | var (x : String) : IsProper (.var x)
  | imaginary : IsProper .imaginary
  | negative {e : Expr} (he : IsProper e) : IsProper (.unary .neg e)
  | binary {op : BinOp} {l r : Expr} (hop : ∀ sign, op ≠ .other sign) (hl : IsProper l)
      (hr : IsProper r) : IsProper (.binary op l r)
  | call {e : Expr} (g : String) (he : IsProper e) : IsProper (.call g e)
  | matrix {rows : List (List Expr)} (h : ∀ r ∈ rows, ∀ e ∈ r, IsProper e) :
      IsProper (.matrix rows)

theorem Expr.flawRow?_eq_none {es : List Expr} :
    flawRow? es = none ↔ ∀ e ∈ es, flaw? e = none := by
  induction es with
  | nil => simp [flawRow?]
  | cons e es ih => simp [flawRow?, ih]

theorem Expr.flawRows?_eq_none {rows : List (List Expr)} :
    flawRows? rows = none ↔ ∀ r ∈ rows, ∀ e ∈ r, flaw? e = none := by
  induction rows with
  | nil => simp [flawRows?]
  | cons r rows ih => simp [flawRows?, flawRow?_eq_none, ih]

/-- The grammar leaves nothing for the check of an expression to find. -/
theorem Expr.IsProper.checked {e : Expr} (h : e.IsProper) : e.checked = .ok e := by
  have hflaw : e.flaw? = none := by
    induction h with
    | number | var | imaginary => rfl
    | negative he ih => simpa only [flaw?] using ih
    | binary hop hl hr ihl ihr => simp only [flaw?, ihl, ihr, Option.or_none]
    | call g he ih => simpa only [flaw?] using ih
    | matrix h ih => simpa only [flaw?, flawRows?_eq_none] using ih
  simp only [Expr.checked, hflaw]

/-- Parts of proper expressions are proper. -/
theorem Expr.IsProper.part {d e : Expr} (h : e.IsProper) (hd : d.Part e) : d.IsProper := by
  cases hd with
  | unary =>
    cases h with
    | negative he => exact he
  | left =>
    cases h with
    | binary _ hl _ => exact hl
  | right =>
    cases h with
    | binary _ _ hr => exact hr
  | arg =>
    cases h with
    | call _ he => exact he
  | element hr he =>
    cases h with
    | matrix h => exact h _ hr _ he

namespace Statement

def exprs : Statement → List Expr
  | expression e | assign _ e | define _ _ e => [e]
  | equation l r => l :: r.toList

/-- The name that a statement binds, and the parameter of a function. -/
def names : Statement → List String
  | assign x _ => [x]
  | define f x _ => [f, x]
  | expression _ | equation _ _ => []

end Statement

namespace Grammar
open Reckoner.Parser

/-- What passes from tokens and parts to the expressions that are made of them. -/
structure Passes (L : Token → Prop) (P : Expr → Prop) : Prop where
  number {t : Token} (ht : L t) (hk : t.kind = .number) : P (.number t.text)
  var {t : Token} (ht : L t) (hk : t.kind = .identifier) (hi : t.text ≠ "i") : P (.var t.text)
  imaginary : P .imaginary
  negative {e : Expr} (he : P e) : P (.unary .neg e)
  binary {op : BinOp} {l r : Expr} (hop : ∀ sign, op ≠ .other sign) (hl : P l) (hr : P r) :
    P (.binary op l r)
  call {e : Expr} (g : String) (he : P e) : P (.call g e)
  matrix {rows : List (List Expr)} (hne : rows ≠ []) (h : ∀ r ∈ rows, ∀ e ∈ r, P e) :
    P (.matrix rows)

/-- Meanings made of expressions with a property, as soon as what they await has it. -/
def Symbol.Holds (P : Expr → Prop) : (S : Symbol) → S.Meaning → Prop
  | .sum | .term | .power | .factor => P
  | .sumTail | .termTail => fun tail => ∀ left : Expr, P left → P (tail left)
  | .items => fun items => ∀ pending : List Expr, (∀ e ∈ pending, P e) →
      ∀ r ∈ items pending, ∀ e ∈ r, P e
  | .row => fun row => ∀ e ∈ row, P e

theorem ne_other_of_sumOp? {k : TokenKind} {op : BinOp} (h : sumOp? k = some op) (sign : String) :
    op ≠ .other sign := by
  intro hop
  subst hop
  cases k <;> cases h

theorem ne_other_of_productOp? {k : TokenKind} {op : BinOp} (h : productOp? k = some op)
    (sign : String) : op ≠ .other sign := by
  intro hop
  subst hop
  cases k <;> cases h

/-- What is left after a phrase is the end of what there was. -/
theorem Derivation.suffix {S : Symbol} {ts rest : List Token} (d : Derivation S ts rest) :
    rest <:+ ts := by
  have hskip {t : Token} {us vs : List Token} (h : t :: us <:+ vs) : us <:+ vs :=
    (List.suffix_cons t us).trans h
  induction d with
  | sumEnd | termEnd | itemsEnd | rowEnd => exact List.suffix_rfl
  | sum _ _ ih ih' | term _ _ ih ih' | adjacent _ _ _ ih ih' => exact ih'.trans ih
  | sumNext _ _ _ _ _ ih ih' | product _ _ _ _ ih ih' =>
    exact (ih'.trans ih).trans (List.suffix_cons _ _)
  | base _ ih | flatLast _ _ _ ih | rowLast _ ih => exact ih
  | raised _ _ _ ih ih' | rowNext _ _ _ ih ih' => exact ih'.trans (hskip ih)
  | flatComma _ _ _ _ ih ih' | flatSemicolon _ _ _ _ ih ih' => exact ih'.trans (hskip ih)
  | negative _ _ ih => exact ih.trans (List.suffix_cons _ _)
  | parens _ _ _ ih | matrix _ _ _ _ ih => exact (hskip ih).trans (List.suffix_cons _ _)
  | numeral | imaginary | name => exact List.suffix_cons _ _
  | call _ _ _ _ _ _ ih =>
    exact (hskip ih).trans ((List.suffix_cons _ _).trans (List.suffix_cons _ _))
  | nested _ _ _ _ ih ih' => exact (ih'.trans (hskip ih)).trans (List.suffix_cons _ _)
  | nestedSep _ _ _ _ _ ih ih' =>
    exact (ih'.trans (hskip (hskip ih))).trans (List.suffix_cons _ _)

/-- The meaning of a phrase has what passes from its tokens and parts. -/
theorem Derivation.holds {L : Token → Prop} {P : Expr → Prop} (hP : Passes L P) {S : Symbol}
    {ts rest : List Token} (d : Derivation S ts rest) (hts : ∀ t ∈ ts, L t) :
    S.Holds P d.meaning := by
  have happend {pending : List Expr} {e : Expr} (hp : ∀ d ∈ pending, P d) (he : P e) :
      ∀ d ∈ pending ++ [e], P d :=
    List.forall_mem_append.mpr ⟨hp, List.forall_mem_singleton.mpr he⟩
  have hend {us vs : List Token} (hus : ∀ t ∈ us, L t) (h : vs <:+ us) : ∀ t ∈ vs, L t :=
    fun t ht => hus t (h.subset ht)
  have htail {t : Token} {us : List Token} (hus : ∀ u ∈ t :: us, L u) : ∀ u ∈ us, L u :=
    hend hus (List.suffix_cons t us)
  induction d with
  | sum first _ ih ih' | term first _ ih ih' => exact ih' (hend hts first.suffix) _ (ih hts)
  | sumEnd | termEnd => exact fun _ hleft => hleft
  | sumNext op hop _ right _ ih ih' =>
    intro left hleft
    have hright := ih (htail hts)
    exact ih' (hend (htail hts) right.suffix) _ (hP.binary (ne_other_of_sumOp? hop) hleft hright)
  | product op hop right _ ih ih' =>
    intro left hleft
    have hright := ih (htail hts)
    exact ih' (hend (htail hts) right.suffix) _
      (hP.binary (ne_other_of_productOp? hop) hleft hright)
  | adjacent _ right _ ih ih' =>
    intro left hleft
    exact ih' (hend hts right.suffix) _ (hP.binary (by simp) hleft (ih hts))
  | base _ ih => exact ih hts
  | raised left _ _ ih ih' =>
    exact hP.binary (by simp) (ih hts) (ih' (htail (hend hts left.suffix)))
  | negative _ _ ih => exact hP.negative (ih (htail hts))
  | parens _ _ _ ih => exact ih (htail hts)
  | numeral t ht => exact hP.number (hts t (by simp)) ht
  | imaginary => exact hP.imaginary
  | call t _ _ _ _ _ ih => exact hP.call t.text (ih (htail (htail hts)))
  | name t ht hi => exact hP.var (hts t (by simp)) ht hi
  | matrix _ hne inner hu ih =>
    have hrows : inner.meaning [] ≠ [] :=
      fun hnil => hne ((inner.meaning_nil_iff (congrArg some hu)).mp hnil)
    exact hP.matrix hrows (ih (htail hts) [] (by simp))
  | itemsEnd =>
    intro pending hp r hr
    cases pending with
    | nil => cases hr
    | cons e es =>
      obtain rfl := List.mem_singleton.mp hr
      exact hp
  | nested _ first _ _ ih ih' =>
    intro pending hp
    have hmore := ih' (htail (hend (htail hts) first.suffix)) pending hp
    exact List.forall_mem_cons.mpr ⟨ih (htail hts), hmore⟩
  | nestedSep _ first _ _ _ ih ih' =>
    intro pending hp
    have hmore := ih' (htail (htail (hend (htail hts) first.suffix))) pending hp
    exact List.forall_mem_cons.mpr ⟨ih (htail hts), hmore⟩
  | flatComma _ first _ _ ih ih' =>
    intro pending hp
    exact ih' (htail (hend hts first.suffix)) _ (happend hp (ih hts))
  | flatSemicolon _ first _ _ ih ih' =>
    intro pending hp
    have hmore := ih' (htail (hend hts first.suffix)) [] (by simp)
    exact List.forall_mem_cons.mpr ⟨happend hp (ih hts), hmore⟩
  | flatLast _ _ _ ih =>
    exact fun pending hp => List.forall_mem_singleton.mpr (happend hp (ih hts))
  | rowEnd => exact fun e he => nomatch he
  | rowLast _ ih => exact List.forall_mem_singleton.mpr (ih hts)
  | rowNext first _ _ ih ih' =>
    exact List.forall_mem_cons.mpr ⟨ih hts, ih' (htail (hend hts first.suffix))⟩

variable {ts : List Token} {st : Statement}

/-- A statement is that of a derivation of its line. -/
theorem line_of_parse (h : parse ts = .ok (some st)) : ∃ d : Line ts, d.statement = st := by
  have hts : ts ≠ [] := by
    intro hts
    subst hts
    cases h
  exact (parse_eq_some_iff hts).mp h

/-- What passes from tokens and parts to expressions holds of the expressions of a line. -/
theorem holds_of_parse {L : Token → Prop} {P : Expr → Prop} (hP : Passes L P)
    (h : parse ts = .ok (some st)) (hts : ∀ t ∈ ts, L t) : ∀ e ∈ st.exprs, P e := by
  have htail {t : Token} {us : List Token} (hus : ∀ u ∈ t :: us, L u) : ∀ u ∈ us, L u :=
    (List.forall_mem_cons.mp hus).2
  obtain ⟨d, rfl⟩ := line_of_parse h
  cases d with
  | expression d | request d => exact List.forall_mem_singleton.mpr (d.holds hP hts)
  | assign _ _ _ _ d => exact List.forall_mem_singleton.mpr (d.holds hP (htail (htail hts)))
  | define _ _ _ _ _ _ _ _ _ d =>
    have hbody := htail (htail (htail (htail (htail hts))))
    exact List.forall_mem_singleton.mpr (d.holds hP hbody)
  | equation left _ right =>
    have hright := htail fun t ht => hts t (left.suffix.subset ht)
    exact List.forall_mem_cons.mpr
      ⟨left.holds hP hts, List.forall_mem_singleton.mpr (right.holds hP hright)⟩

/-- The expressions of a line are as the grammar has them: signs of its own only, and an expression
wherever one is due. -/
theorem isProper_of_parse (h : parse ts = .ok (some st)) : ∀ e ∈ st.exprs, e.IsProper := by
  have hproper : Passes (fun _ => True) Expr.IsProper :=
    { number := fun _ _ => .number _
      var := fun _ _ _ => .var _
      imaginary := .imaginary
      negative := .negative
      binary := .binary
      call := .call
      matrix := fun _ => .matrix }
  exact holds_of_parse hproper h fun _ _ => trivial

/-- Names that are bound stand in the line, and none of them is that of the imaginary unit. -/
theorem name_of_parse (h : parse ts = .ok (some st)) :
    ∀ x ∈ st.names, Text.lower x ≠ "i" ∧ ∃ t ∈ ts, t.kind = .identifier ∧ t.text = x := by
  obtain ⟨d, rfl⟩ := line_of_parse h
  cases d with
  | expression | request | equation => exact fun x hx => nomatch hx
  | assign x hx hi => exact List.forall_mem_singleton.mpr ⟨hi, x, by simp, hx, rfl⟩
  | define f x hf hfi hl hx hxi =>
    exact List.forall_mem_cons.mpr
      ⟨⟨hfi, f, by simp, hf, rfl⟩, List.forall_mem_singleton.mpr ⟨hxi, x, by simp, hx, rfl⟩⟩

end Grammar
end Reckoner
