import Mathlib
import Reckoner.Proofs.Grammar.Proper

namespace Reckoner

namespace Expr

mutual
/-- The numerals and names of an expression from left to right, a matrix row by row. -/
def leaves : Expr → List String
  | .absent => []
  | .number t => [t]
  | .var x => [x]
  | .imaginary => ["i"]
  | .unary _ e => leaves e
  | .binary _ l r => leaves l ++ leaves r
  | .call f e => f :: leaves e
  | .matrix rows => leavesRows rows
  | .other _ => []

def leavesRow : List Expr → List String
  | [] => []
  | e :: es => leaves e ++ leavesRow es

def leavesRows : List (List Expr) → List String
  | [] => []
  | r :: rs => leavesRow r ++ leavesRows rs
end

theorem leavesRow_eq (r : List Expr) : leavesRow r = r.flatMap leaves := by
  induction r with
  | nil => rfl
  | cons e es ih => rw [leavesRow, ih, List.flatMap_cons]

theorem leavesRow_append (r : List Expr) (e : Expr) :
    leavesRow (r ++ [e]) = leavesRow r ++ e.leaves := by
  simp [leavesRow_eq]

theorem leavesRows_single (r : List Expr) : leavesRows [r] = leavesRow r :=
  List.append_nil _

end Expr

def Statement.leaves : Statement → List String
  | expression e => e.leaves
  | assign x e => x :: e.leaves
  | define f x e => f :: x :: e.leaves
  | equation l r => l.leaves ++ (r.map Expr.leaves).getD []

namespace Token

def isWord (t : Token) : Bool :=
  t.kind = .number || t.kind = .identifier

def words (ts : List Token) : List String :=
  (ts.filter isWord).map Token.text

theorem words_cons_of_word {t : Token} (ht : t.kind = .number ∨ t.kind = .identifier)
    (ts : List Token) : words (t :: ts) = t.text :: words ts := by
  rcases ht with ht | ht <;> simp [words, isWord, ht]

theorem words_cons {t : Token} {k : TokenKind} (ht : t.kind = k) (ts : List Token)
    (hk : k ≠ .number ∧ k ≠ .identifier) : words (t :: ts) = words ts := by
  simp [words, isWord, ht, hk]

/-- The words of two phrases, one after the other. -/
theorem words_trans {ts mid rest : List Token} {v w : List String}
    (hv : words ts = v ++ words mid) (hw : words mid = w ++ words rest) :
    words ts = (v ++ w) ++ words rest := by
  rw [hv, hw, List.append_assoc]

end Token

namespace Grammar
open Reckoner.Parser Token

/-- The words `w` again, in their order if `ordered` holds, and only then if they are distinct. -/
structure Kept (ordered : Prop) (l w : List String) : Prop where
  perm : l.Perm w
  eq_of_ordered : ordered → l = w
  ordered_of_eq : w.Nodup → l = w → ordered

namespace Kept
variable {p q : Prop} {a b u v w : List String}

theorem refl (w : List String) : Kept True w w :=
  ⟨.refl w, fun _ => rfl, fun _ _ => trivial⟩

theorem congr (h : Kept p a u) (hpq : p ↔ q) (huv : u = v) : Kept q a v :=
  ⟨huv ▸ h.perm, fun hq => huv ▸ h.eq_of_ordered (hpq.mpr hq),
    fun hn he => hpq.mp (h.ordered_of_eq (huv ▸ hn) (he.trans huv.symm))⟩

/-- Words that are kept one after the other are kept together. -/
theorem append (ha : Kept p a u) (hb : Kept q b v) : Kept (p ∧ q) (a ++ b) (u ++ v) := by
  refine ⟨ha.perm.append hb.perm, fun h => ?_, fun hn he => ?_⟩
  · rw [ha.eq_of_ordered h.1, hb.eq_of_ordered h.2]
  · obtain ⟨hau, hbv⟩ := List.append_inj he ha.perm.length_eq
    exact ⟨ha.ordered_of_eq hn.of_append_left hau, hb.ordered_of_eq hn.of_append_right hbv⟩

theorem cons (x : String) (ha : Kept p a u) : Kept p (x :: a) (x :: u) :=
  ((refl [x]).append ha).congr (Iff.of_eq (true_and _)) rfl

/-- Words that are moved to the front stay in order only if they, or those before them, are none. -/
theorem moved (ha : Kept p a v) (hb : Kept q b (u ++ w)) :
    Kept (p ∧ (u = [] ∨ v = []) ∧ q) (a ++ b) (u ++ (v ++ w)) := by
  refine ⟨?_, fun h => ?_, fun hn he => ?_⟩
  · calc (a ++ b).Perm (v ++ (u ++ w)) := ha.perm.append hb.perm
      _ = (v ++ u) ++ w := (List.append_assoc _ _ _).symm
      (_ ++ w).Perm ((u ++ v) ++ w) := List.perm_append_comm.append_right w
      _ = u ++ (v ++ w) := List.append_assoc _ _ _
  · rw [ha.eq_of_ordered h.1, hb.eq_of_ordered h.2.2]
    rcases h.2.1 with rfl | rfl <;> rfl
  · have hnone : u = [] ∨ v = [] := by
      by_contra hboth
      obtain ⟨hu, hv⟩ := not_or.mp hboth
      obtain ⟨x, u', rfl⟩ := List.exists_cons_of_ne_nil hu
      obtain ⟨y, a', rfl⟩ := List.exists_cons_of_ne_nil fun h : a = [] =>
        hv (List.nil_perm.mp (h ▸ ha.perm))
      -- The first word is then both among those moved and among those before them.
      obtain rfl : y = x := (List.cons.inj he).1
      have hy : y ∈ v := ha.perm.subset List.mem_cons_self
      exact (List.nodup_append.mp hn).2.2 y List.mem_cons_self y (List.mem_append_left w hy) rfl
    rcases hnone with rfl | rfl
    · obtain ⟨hp, hq⟩ := (ha.append hb).ordered_of_eq hn he
      exact ⟨hp, .inl rfl, hq⟩
    · obtain rfl : a = [] := List.perm_nil.mp ha.perm
      exact ⟨ha.ordered_of_eq List.nodup_nil rfl, .inr rfl, hb.ordered_of_eq hn he⟩

end Kept

namespace Derivation

/-- No row in brackets with a word comes while elements with words are pending. -/
def InOrder {S : Symbol} {ts rest : List Token} : Derivation S ts rest → List Expr → Prop
  | sum first tail, _ | term first tail, _ => first.InOrder [] ∧ tail.InOrder []
  | sumEnd, _ | termEnd, _ | itemsEnd, _ | rowEnd, _ => True
  | numeral .., _ | imaginary .., _ | name .., _ => True
  | sumNext _ _ _ right tail, _ | product _ _ right tail, _ | adjacent _ right tail, _ =>
    right.InOrder [] ∧ tail.InOrder []
  | base only, _ => only.InOrder []
  | raised left _ exponent, _ => left.InOrder [] ∧ exponent.InOrder []
  | negative _ arg, _ => arg.InOrder []
  | parens _ inner _, _ => inner.InOrder []
  | call _ _ _ _ arg _, _ => arg.InOrder []
  | matrix _ _ inner _, _ => inner.InOrder []
  | nested _ first _ more, pending | nestedSep _ first _ _ more, pending =>
    first.InOrder [] ∧ (Expr.leavesRow pending = [] ∨ Expr.leavesRow first.meaning = []) ∧
      more.InOrder pending
  | flatComma _ first _ more, pending =>
    first.InOrder [] ∧ more.InOrder (pending ++ [first.meaning])
  | flatSemicolon _ first _ more, _ => first.InOrder [] ∧ more.InOrder []
  | flatLast _ last _, _ => last.InOrder []
  | rowLast last, _ => last.InOrder []
  | rowNext first _ more, _ => first.InOrder [] ∧ more.InOrder []

end Derivation

/-- How the leaves of a meaning keep the words `w` of its phrase, and those of what it awaits before
them. -/
def Symbol.Keeps : (S : Symbol) → (List Expr → Prop) → S.Meaning → List String → Prop
  | .sum, ordered, e, w | .term, ordered, e, w | .power, ordered, e, w | .factor, ordered, e, w =>
    Kept (ordered []) (Expr.leaves e) w
  | .sumTail, ordered, tail, w | .termTail, ordered, tail, w =>
    ∀ (p : Prop) (left : Expr) (u : List String), Kept p left.leaves u →
      Kept (p ∧ ordered []) (Expr.leaves (tail left)) (u ++ w)
  | .items, ordered, rows, w =>
    ∀ (p : Prop) (pending : List Expr) (u : List String), Kept p (Expr.leavesRow pending) u →
      Kept (p ∧ ordered pending) (Expr.leavesRows (rows pending)) (u ++ w)
  | .row, ordered, es, w => Kept (ordered []) (Expr.leavesRow es) w

namespace Derivation
variable {S : Symbol} {ts rest : List Token}

section Signs
variable {t : Token} {op : BinOp}

theorem words_sum (hop : sumOp? t.kind = some op) (ts : List Token) :
    words (t :: ts) = words ts := by
  refine words_cons rfl ts ?_
  constructor <;> intro hk <;> rw [hk] at hop <;> cases hop

theorem words_product (hop : productOp? t.kind = some op) (ts : List Token) :
    words (t :: ts) = words ts := by
  refine words_cons rfl ts ?_
  constructor <;> intro hk <;> rw [hk] at hop <;> cases hop

/-- Separators are no words. -/
theorem words_separator (ht : t.kind = .comma ∨ t.kind = .semicolon) (ts : List Token) :
    words (t :: ts) = words ts := by
  rcases ht with ht | ht <;> exact words_cons ht ts (by decide)

end Signs

/-- A sign and the operand after it, before a tail. -/
theorem keeps_tail {right : Expr} {tail : Expr → Expr} {p q : Prop} {v w : List String} (op : BinOp)
    (hright : Kept p right.leaves v)
    (htail : ∀ (r : Prop) (left : Expr) (u : List String), Kept r left.leaves u →
      Kept (r ∧ q) (tail left).leaves (u ++ w))
    (r : Prop) (left : Expr) (u : List String) (hleft : Kept r left.leaves u) :
    Kept (r ∧ p ∧ q) (tail (.binary op left right)).leaves (u ++ (v ++ w)) :=
  (htail _ _ _ (hleft.append hright)).congr and_assoc (List.append_assoc _ _ _)

/-- An element takes its place after the pending ones. -/
theorem keeps_pending {pending : List Expr} {e : Expr} {p q : Prop} {u v : List String}
    (hpending : Kept p (Expr.leavesRow pending) u) (he : Kept q e.leaves v) :
    Kept (p ∧ q) (Expr.leavesRow (pending ++ [e])) (u ++ v) := by
  rw [Expr.leavesRow_append]
  exact hpending.append he

/-- A row in brackets goes before the pending elements. -/
theorem keeps_nested {row : List Expr} {rows : List Expr → List (List Expr)} {p : Prop}
    {ordered : List Expr → Prop} {v w : List String} (hrow : Kept p (Expr.leavesRow row) v)
    (hrows : Symbol.items.Keeps ordered rows w) (r : Prop) (pending : List Expr) (u : List String)
    (hpending : Kept r (Expr.leavesRow pending) u) :
    Kept (r ∧ p ∧ (Expr.leavesRow pending = [] ∨ Expr.leavesRow row = []) ∧ ordered pending)
      (Expr.leavesRows (row :: rows pending)) (u ++ (v ++ w)) := by
  have hnone : (u = [] ∨ v = []) ↔ (Expr.leavesRow pending = [] ∨ Expr.leavesRow row = []) :=
    or_congr ⟨fun h => List.perm_nil.mp (h ▸ hpending.perm),
        fun h => List.nil_perm.mp (h ▸ hpending.perm)⟩
      ⟨fun h => List.perm_nil.mp (h ▸ hrow.perm), fun h => List.nil_perm.mp (h ▸ hrow.perm)⟩
  refine (hrow.moved (hrows r pending u hpending)).congr ?_ rfl
  rw [hnone]
  tauto

/-- A phrase keeps its words, by induction on how it is derived. -/
theorem keeps (d : Derivation S ts rest) :
    ∃ w, words ts = w ++ words rest ∧ S.Keeps d.InOrder d.meaning w := by
  induction d with
  | sumEnd | termEnd =>
    refine ⟨[], rfl, fun p left u hleft => ?_⟩
    exact hleft.congr (Iff.of_eq (and_true p)).symm (List.append_nil u).symm
  | itemsEnd =>
    refine ⟨[], rfl, fun p pending u hpending => ?_⟩
    have hend : Expr.leavesRows (if pending.isEmpty then [] else [pending]) =
        Expr.leavesRow pending := by
      cases pending with
      | nil => rfl
      | cons e es => exact Expr.leavesRows_single (e :: es)
    exact (hend ▸ hpending).congr (Iff.of_eq (and_true p)).symm (List.append_nil u).symm
  | rowEnd => exact ⟨[], rfl, .refl []⟩
  | numeral t ht => exact ⟨[t.text], words_cons_of_word (.inl ht) _, .refl _⟩
  | name t ht hi hrest => exact ⟨[t.text], words_cons_of_word (.inr ht) _, .refl _⟩
  | imaginary ht hi => exact ⟨["i"], by rw [words_cons_of_word (.inr ht), hi]; rfl, .refl _⟩
  | sum first tail ih ih' | term first tail ih ih' =>
    obtain ⟨v, hv, hfirst⟩ := ih
    obtain ⟨w, hw, htail⟩ := ih'
    exact ⟨v ++ w, words_trans hv hw, htail _ _ _ hfirst⟩
  | sumNext op hop hsign right tail ih ih' =>
    obtain ⟨v, hv, hright⟩ := ih
    obtain ⟨w, hw, htail⟩ := ih'
    exact ⟨v ++ w, words_trans ((words_sum hop _).trans hv) hw, keeps_tail op hright htail⟩
  | product op hop right tail ih ih' =>
    obtain ⟨v, hv, hright⟩ := ih
    obtain ⟨w, hw, htail⟩ := ih'
    exact ⟨v ++ w, words_trans ((words_product hop _).trans hv) hw, keeps_tail op hright htail⟩
  | adjacent hstart right tail ih ih' =>
    obtain ⟨v, hv, hright⟩ := ih
    obtain ⟨w, hw, htail⟩ := ih'
    exact ⟨v ++ w, words_trans hv hw, keeps_tail .mul hright htail⟩
  | base only ih => exact ih
  | raised left ht exponent ih ih' =>
    obtain ⟨v, hv, hleft⟩ := ih
    obtain ⟨w, hw, hexponent⟩ := ih'
    rw [words_cons ht _ (by decide)] at hv
    exact ⟨v ++ w, words_trans hv hw, hleft.append hexponent⟩
  | negative ht arg ih =>
    obtain ⟨w, hw, harg⟩ := ih
    exact ⟨w, (words_cons ht _ (by decide)).trans hw, harg⟩
  | parens ht inner hu ih =>
    obtain ⟨w, hw, hinner⟩ := ih
    refine ⟨w, ?_, hinner⟩
    rw [words_cons ht _ (by decide), hw, words_cons hu _ (by decide)]
  | call t ht hi hu arg hc ih =>
    obtain ⟨w, hw, harg⟩ := ih
    refine ⟨t.text :: w, ?_, harg.cons t.text⟩
    rw [words_cons_of_word (.inr ht), words_cons hu _ (by decide), hw,
      words_cons hc _ (by decide), List.cons_append]
  | matrix ht hne inner hu ih =>
    obtain ⟨w, hw, hinner⟩ := ih
    refine ⟨w, ?_, ?_⟩
    · rw [words_cons ht _ (by decide), hw, words_cons hu _ (by decide)]
    · exact (hinner True [] [] (.refl [])).congr (Iff.of_eq (true_and _)) rfl
  | nested ht first hu more ih ih' =>
    obtain ⟨v, hv, hfirst⟩ := ih
    obtain ⟨w, hw, hmore⟩ := ih'
    rw [words_cons hu _ (by decide)] at hv
    refine ⟨v ++ w, ?_, keeps_nested hfirst hmore⟩
    exact words_trans ((words_cons ht _ (by decide)).trans hv) hw
  | nestedSep ht first hu hsep more ih ih' =>
    obtain ⟨v, hv, hfirst⟩ := ih
    obtain ⟨w, hw, hmore⟩ := ih'
    rw [words_cons hu _ (by decide), words_separator hsep] at hv
    refine ⟨v ++ w, ?_, keeps_nested hfirst hmore⟩
    exact words_trans ((words_cons ht _ (by decide)).trans hv) hw
  | flatComma hflat first hu more ih ih' =>
    obtain ⟨v, hv, hfirst⟩ := ih
    obtain ⟨w, hw, hmore⟩ := ih'
    rw [words_cons hu _ (by decide)] at hv
    refine ⟨v ++ w, words_trans hv hw, fun p pending u hpending => ?_⟩
    have hrows := hmore _ _ _ (keeps_pending hpending hfirst)
    exact hrows.congr and_assoc (List.append_assoc _ _ _)
  | flatSemicolon hflat first hu more ih ih' =>
    obtain ⟨v, hv, hfirst⟩ := ih
    obtain ⟨w, hw, hmore⟩ := ih'
    rw [words_cons hu _ (by decide)] at hv
    refine ⟨v ++ w, words_trans hv hw, fun p pending u hpending => ?_⟩
    have hrows := (hmore True [] [] (.refl [])).congr (Iff.of_eq (true_and _)) rfl
    exact ((keeps_pending hpending hfirst).append hrows).congr and_assoc (List.append_assoc _ _ _)
  | flatLast hflat last hrest ih =>
    obtain ⟨v, hv, hlast⟩ := ih
    refine ⟨v, hv, fun p pending u hpending => ?_⟩
    have hrow := keeps_pending hpending hlast
    rwa [← Expr.leavesRows_single] at hrow
  | rowLast last ih =>
    obtain ⟨w, hw, hlast⟩ := ih
    exact ⟨w, hw, (hlast.append (.refl [])).congr (Iff.of_eq (and_true _)) (List.append_nil w)⟩
  | rowNext first hu more ih ih' =>
    obtain ⟨v, hv, hfirst⟩ := ih
    obtain ⟨w, hw, hmore⟩ := ih'
    rw [words_cons hu _ (by decide)] at hv
    exact ⟨v ++ w, words_trans hv hw, hfirst.append hmore⟩

/-- A sum at the end of a line. -/
theorem keeps_all (d : Derivation .sum ts []) :
    Kept (d.InOrder []) d.meaning.leaves (words ts) := by
  obtain ⟨w, hw, h⟩ := d.keeps
  exact h.congr .rfl (hw.trans (List.append_nil w)).symm

end Derivation

def Line.InOrder {ts : List Token} : Line ts → Prop
  | .expression d => d.InOrder []
  | .assign _ _ _ _ value => value.InOrder []
  | .define _ _ _ _ _ _ _ _ _ body => body.InOrder []
  | .request left _ _ _ => left.InOrder []
  | .equation left _ right _ _ => left.InOrder [] ∧ right.InOrder []

theorem Line.keeps {ts : List Token} (d : Line ts) :
    Kept d.InOrder d.statement.leaves (words ts) := by
  cases d with
  | expression d => exact d.keeps_all
  | assign x hx _ heq value =>
    refine (value.keeps_all.cons x.text).congr .rfl ?_
    rw [words_cons_of_word (.inr hx), words_cons heq _ (by decide)]
  | define f x hf _ hl hx _ hr heq body =>
    refine ((body.keeps_all.cons x.text).cons f.text).congr .rfl ?_
    rw [words_cons_of_word (.inr hf), words_cons hl _ (by decide), words_cons_of_word (.inr hx),
      words_cons hr _ (by decide), words_cons heq _ (by decide)]
  | request left heq hq =>
    obtain ⟨w, hw, h⟩ := left.keeps
    refine (h.append (.refl [])).congr (Iff.of_eq (and_true _)) ?_
    rw [hw, words_cons heq _ (by decide), words_cons hq _ (by decide)]
    rfl
  | equation left heq right hq =>
    obtain ⟨v, hv, hleft⟩ := left.keeps
    obtain ⟨w, hw, hright⟩ := right.keeps
    refine (hleft.append hright).congr .rfl ?_
    rw [hv, words_cons heq _ (by decide), hw, words_cons hq _ (by decide)]
    exact congrArg (v ++ ·) (List.append_nil w).symm

/-- In no matrix of a line does a row in brackets come while elements wait for their row to end. -/
def KeepsOrder (ts : List Token) : Prop :=
  ∀ d : Line ts, d.InOrder

/-- The numerals and names of a statement are those of its line, none lost and none added. They are
in the order of the line if no row in brackets overtakes a pending row, and only then if they are
distinct. -/
theorem leaves_of_parse {ts : List Token} {o : Option Statement} (h : parse ts = .ok o) :
    ((o.map Statement.leaves).getD []).Perm (words ts) ∧
      (KeepsOrder ts → (o.map Statement.leaves).getD [] = words ts) ∧
      ((words ts).Nodup → (o.map Statement.leaves).getD [] = words ts → KeepsOrder ts) := by
  by_cases hts : ts = []
  · subst hts
    cases h
    refine ⟨.refl [], fun _ => rfl, fun hn _ d => ?_⟩
    exact d.keeps.ordered_of_eq hn (List.perm_nil.mp d.keeps.perm)
  · obtain ⟨rest, hreads⟩ := parse_eq_ok.mp h
    obtain ⟨st, -, rfl, -⟩ := (reads_statement hts).mp hreads
    obtain ⟨d, rfl⟩ := line_of_parse h
    refine ⟨d.keeps.perm, fun hall => d.keeps.eq_of_ordered (hall d), fun hn he d' => ?_⟩
    rw [d'.unique d]
    exact d.keeps.ordered_of_eq hn he

def flatRows : List Token :=
  [⟨.lbracket, "[", 0⟩, ⟨.number, "1", 1⟩, ⟨.comma, ",", 2⟩, ⟨.identifier, "x", 4⟩,
    ⟨.semicolon, ";", 5⟩, ⟨.identifier, "y", 7⟩, ⟨.rbracket, "]", 8⟩]

def mixedRows : List Token :=
  [⟨.lbracket, "[", 0⟩, ⟨.number, "1", 1⟩, ⟨.comma, ",", 2⟩, ⟨.identifier, "x", 4⟩,
    ⟨.comma, ",", 5⟩, ⟨.lbracket, "[", 7⟩, ⟨.identifier, "y", 8⟩, ⟨.rbracket, "]", 9⟩,
    ⟨.rbracket, "]", 10⟩]

/-- In `[1, x; y]` the order is kept, and in `[1, x, [y]]` the row in brackets comes first. -/
theorem leaves_of_parse_rows :
    (parse flatRows = .ok (some (.expression (.matrix [[.number "1", .var "x"], [.var "y"]]))) ∧
      KeepsOrder flatRows) ∧
    (parse mixedRows = .ok (some (.expression (.matrix [[.var "y"], [.number "1", .var "x"]]))) ∧
      ["y", "1", "x"].Perm (words mixedRows) ∧ ¬ KeepsOrder mixedRows) := by
  have hflat : parse flatRows =
      .ok (some (.expression (.matrix [[.number "1", .var "x"], [.var "y"]]))) := by cbv
  have hmixed : parse mixedRows =
      .ok (some (.expression (.matrix [[.var "y"], [.number "1", .var "x"]]))) := by cbv
  obtain ⟨hperm, hkept, -⟩ := leaves_of_parse hmixed
  refine ⟨⟨hflat, (leaves_of_parse hflat).2.2 (by decide) rfl⟩, hmixed, hperm, fun horder => ?_⟩
  exact absurd (hkept horder) (by decide)

end Grammar
end Reckoner
