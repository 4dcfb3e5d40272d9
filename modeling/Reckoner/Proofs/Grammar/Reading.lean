import Reckoner.Proofs.Grammar.Steps
import Reckoner.Proofs.Grammar.Unambiguous

namespace Reckoner.Parser
open Grammar

/-- At depth `n`, what is read of a phrase is derived and ends where it may. A tail is read after
what may come before it, and what stands in brackets up to the closing one. -/
structure Sound (n : Nat) : Prop where
  expression : ∀ {ts rest : List Token} {e : Expr}, 8 * ts.length + 5 ≤ n →
    Reads (expression n) ts e rest →
      (∃ d : Derivation .sum ts rest, d.meaning = e) ∧ Symbol.sum.Ends rest
  sumTail : ∀ {ts rest : List Token} {l e : Expr}, 8 * ts.length + 1 ≤ n → Symbol.term.Ends ts →
    Reads (sumTail n l) ts e rest →
      (∃ d : Derivation .sumTail ts rest, d.meaning l = e) ∧ Symbol.sum.Ends rest
  term : ∀ {ts rest : List Token} {e : Expr}, 8 * ts.length + 4 ≤ n →
    Reads (term n) ts e rest →
      (∃ d : Derivation .term ts rest, d.meaning = e) ∧ Symbol.term.Ends rest
  productTail : ∀ {ts rest : List Token} {l e : Expr}, 8 * ts.length + 4 ≤ n →
    Symbol.power.Ends ts → Reads (productTail n l) ts e rest →
      (∃ d : Derivation .termTail ts rest, d.meaning l = e) ∧ Symbol.term.Ends rest
  power : ∀ {ts rest : List Token} {e : Expr}, 8 * ts.length + 3 ≤ n →
    Reads (power n) ts e rest →
      (∃ d : Derivation .power ts rest, d.meaning = e) ∧ Symbol.power.Ends rest
  factor : ∀ {ts rest : List Token} {e : Expr}, 8 * ts.length + 2 ≤ n →
    Reads (factor n) ts e rest → ∃ d : Derivation .factor ts rest, d.meaning = e
  matrix : ∀ {t : Token} {ts rest : List Token} {e : Expr}, 8 * ts.length + 9 ≤ n →
    t.kind = .lbracket → Reads (matrix n) (t :: ts) e rest →
      ∃ d : Derivation .factor (t :: ts) rest, d.meaning = e
  items : ∀ {ts rest : List Token} {pending : List Expr} {rows : List (List Expr)},
    8 * ts.length + 6 ≤ n → kind? rest = some .rbracket → Reads (items n pending) ts rows rest →
      ∃ d : Derivation .items ts rest, d.meaning pending = rows
  rowItems : ∀ {ts rest : List Token} {row : List Expr},
    8 * ts.length + 6 ≤ n → kind? rest = some .rbracket → Reads (rowItems n) ts row rest →
      ∃ d : Derivation .row ts rest, d.meaning = row

namespace Sound
variable {n : Nat} {t : Token} {ts rest : List Token} {e l : Expr}

/-- One step deeper, a sum is a term and its tail. -/
theorem expression_succ (h : Sound n) (hn : 8 * ts.length + 5 ≤ n + 1)
    (hr : Reads (Parser.expression (n + 1)) ts e rest) :
    (∃ d : Derivation .sum ts rest, d.meaning = e) ∧ Symbol.sum.Ends rest := by
  obtain ⟨l, mid, hl, ht⟩ := reads_expression.mp hr
  obtain ⟨⟨first, rfl⟩, hmid⟩ := h.term (by omega) hl
  have hlen := first.length_le
  simp only [Symbol.size] at hlen
  obtain ⟨⟨tail, rfl⟩, hrest⟩ := h.sumTail (by omega) hmid ht
  exact ⟨⟨.sum first tail, rfl⟩, hrest⟩

theorem sumTail_succ (h : Sound n) (hn : 8 * ts.length + 1 ≤ n + 1) (hts : Symbol.term.Ends ts)
    (hr : Reads (Parser.sumTail (n + 1) l) ts e rest) :
    (∃ d : Derivation .sumTail ts rest, d.meaning l = e) ∧ Symbol.sum.Ends rest := by
  cases hop : (kind? ts).bind sumOp? with
  | none =>
    obtain ⟨rfl, rfl⟩ := (reads_sumTail_stop hop).mp hr
    refine ⟨⟨.sumEnd, rfl⟩, fun k hk => ?_⟩
    rcases hts k hk with hc | hs
    · exact hc
    · simp [hk, Option.isSome_iff_ne_none] at hop hs
      contradiction
  | some op =>
    obtain ⟨k, hk, hop⟩ := Option.bind_eq_some_iff.mp hop
    obtain ⟨t, ts', rfl, rfl⟩ := kind?_eq_some.mp hk
    obtain ⟨hsign, r, mid, hterm, htail⟩ := (reads_sumTail_next hop).mp hr
    simp only [List.length_cons] at hn
    obtain ⟨⟨right, rfl⟩, hmid⟩ := h.term (by omega) hterm
    have hlen := right.length_le
    simp only [Symbol.size] at hlen
    obtain ⟨⟨tail, rfl⟩, hrest⟩ := h.sumTail (by omega) hmid htail
    have hminus : kind? ts' ≠ some .minus := by
      intro hm
      rw [hm] at hsign
      cases hsign
    exact ⟨⟨.sumNext op hop hminus right tail, rfl⟩, hrest⟩

theorem term_succ (h : Sound n) (hn : 8 * ts.length + 4 ≤ n + 1)
    (hr : Reads (Parser.term (n + 1)) ts e rest) :
    (∃ d : Derivation .term ts rest, d.meaning = e) ∧ Symbol.term.Ends rest := by
  obtain ⟨l, mid, hl, ht⟩ := reads_term.mp hr
  obtain ⟨⟨first, rfl⟩, hmid⟩ := h.power (by omega) hl
  have hlen := first.length_le
  simp only [Symbol.size] at hlen
  obtain ⟨⟨tail, rfl⟩, hrest⟩ := h.productTail (by omega) hmid ht
  exact ⟨⟨.term first tail, rfl⟩, hrest⟩

theorem productTail_succ (h : Sound n) (hn : 8 * ts.length + 4 ≤ n + 1)
    (hts : Symbol.power.Ends ts) (hr : Reads (Parser.productTail (n + 1) l) ts e rest) :
    (∃ d : Derivation .termTail ts rest, d.meaning l = e) ∧ Symbol.term.Ends rest := by
  by_cases hstop : ∀ k, kind? ts = some k → productOp? k = none ∧ startsFactor k = false
  · obtain ⟨rfl, rfl⟩ := (reads_productTail_stop hstop).mp hr
    refine ⟨⟨.termEnd, rfl⟩, fun k hk => ?_⟩
    have hpow : k ≠ .power := fun hp => hts (hp ▸ hk)
    have hk := hstop k hk
    cases k <;> simp_all [productOp?, startsFactor, closes, sumOp?]
  · obtain ⟨t, ts', rfl⟩ : ∃ t ts', ts = t :: ts' := by
      cases ts with
      | nil => exact absurd (fun k hk => by cases hk) hstop
      | cons t ts' => exact ⟨t, ts', rfl⟩
    simp only [List.length_cons] at hn
    cases hop : productOp? t.kind with
    | some op =>
      obtain ⟨r, mid, hpower, htail⟩ := (reads_productTail_product hop).mp hr
      obtain ⟨⟨right, rfl⟩, hmid⟩ := h.power (by omega) hpower
      have hlen := right.length_le
      simp only [Symbol.size] at hlen
      obtain ⟨⟨tail, rfl⟩, hrest⟩ := h.productTail (by omega) hmid htail
      exact ⟨⟨.product op hop right tail, rfl⟩, hrest⟩
    | none =>
      have hstart : startsFactor t.kind = true := by
        simpa [hop] using hstop
      obtain ⟨r, mid, hpower, htail⟩ := (reads_productTail_adjacent hstart).mp hr
      obtain ⟨⟨right, rfl⟩, hmid⟩ := h.power (by simpa using hn) hpower
      have hlen := right.length_le
      simp only [Symbol.size, List.length_cons] at hlen
      obtain ⟨⟨tail, rfl⟩, hrest⟩ := h.productTail (by omega) hmid htail
      exact ⟨⟨.adjacent hstart right tail, rfl⟩, hrest⟩

theorem power_succ (h : Sound n) (hn : 8 * ts.length + 3 ≤ n + 1)
    (hr : Reads (Parser.power (n + 1)) ts e rest) :
    (∃ d : Derivation .power ts rest, d.meaning = e) ∧ Symbol.power.Ends rest := by
  obtain ⟨b, mid, hb, hmid⟩ := reads_power.mp hr
  obtain ⟨left, rfl⟩ := h.factor (by omega) hb
  have hlen := left.length_le
  simp only [Symbol.size] at hlen
  rcases hmid with ⟨hp, x, hx, rfl⟩ | ⟨hp, rfl, rfl⟩
  · obtain ⟨t, mid', rfl, ht⟩ := kind?_eq_some.mp hp
    simp only [List.length_cons] at hlen
    obtain ⟨⟨exponent, rfl⟩, hrest⟩ := h.power (by simp only [List.tail_cons]; omega) hx
    exact ⟨⟨.raised left ht exponent, rfl⟩, hrest⟩
  · exact ⟨⟨.base left, rfl⟩, hp⟩

theorem factor_succ (h : Sound n) (hn : 8 * ts.length + 2 ≤ n + 1)
    (hr : Reads (Parser.factor (n + 1)) ts e rest) :
    ∃ d : Derivation .factor ts rest, d.meaning = e := by
  cases ts with
  | nil => exact absurd hr reads_factor_nil
  | cons t ts =>
    simp only [List.length_cons] at hn
    have hstart := startsOperand_of_reads_factor hr
    cases hk : t.kind with
    | minus =>
      obtain ⟨a, ha, rfl⟩ := (reads_factor_negative hk).mp hr
      obtain ⟨arg, rfl⟩ := h.factor (by omega) ha
      exact ⟨.negative hk arg, rfl⟩
    | lparen =>
      obtain ⟨u, hs, hu⟩ := (reads_factor_parens hk).mp hr
      obtain ⟨⟨inner, rfl⟩, -⟩ := h.expression (by omega) hs
      exact ⟨.parens hk inner hu, rfl⟩
    | lbracket => exact h.matrix (by omega) hk ((reads_factor_matrix hk).mp hr)
    | number =>
      obtain ⟨rfl, rfl⟩ := (reads_factor_numeral hk).mp hr
      exact ⟨.numeral t hk, rfl⟩
    | identifier =>
      by_cases hi : t.text = "i"
      · obtain ⟨rfl, rfl⟩ := (reads_factor_imaginary hk hi).mp hr
        exact ⟨.imaginary hk hi, rfl⟩
      · by_cases hp : kind? ts = some .lparen
        · obtain ⟨u, ts', rfl, hu⟩ := kind?_eq_some.mp hp
          obtain ⟨a, w, hs, hw, rfl⟩ := (reads_factor_call hk hi hu).mp hr
          simp only [List.length_cons] at hn
          obtain ⟨⟨arg, rfl⟩, -⟩ := h.expression (by omega) hs
          exact ⟨.call t hk hi hu arg hw, rfl⟩
        · obtain ⟨rfl, rfl⟩ := (reads_factor_name hk hi hp).mp hr
          exact ⟨.name t hk hi hp, rfl⟩
    | _ => simp [hk, startsOperand] at hstart

theorem matrix_succ (h : Sound n) (hn : 8 * ts.length + 9 ≤ n + 1) (ht : t.kind = .lbracket)
    (hr : Reads (Parser.matrix (n + 1)) (t :: ts) e rest) :
    ∃ d : Derivation .factor (t :: ts) rest, d.meaning = e := by
  obtain ⟨rows, u, hitems, hu, hne, rfl⟩ := (reads_matrix ht).mp hr
  have hclose : kind? (u :: rest) = some .rbracket := congrArg some hu
  obtain ⟨inner, rfl⟩ := h.items (by omega) hclose hitems
  have hitem : kind? ts ≠ some .rbracket := fun hc => hne ((inner.meaning_nil_iff hclose).mpr hc)
  exact ⟨.matrix ht hitem inner hu, rfl⟩

theorem nested_succ {pending : List Expr} {rows : List (List Expr)} (h : Sound n)
    (hn : 8 * ts.length + 13 ≤ n) (ht : t.kind = .lbracket) (hrest : kind? rest = some .rbracket)
    (hr : Reads (Parser.items (n + 1) pending) (t :: ts) rows rest) :
    ∃ d : Derivation .items (t :: ts) rest, d.meaning pending = rows := by
  obtain ⟨r, u, mid, rows', hrow, hu, hmore, rfl⟩ := (reads_items_nested ht).mp hr
  have hclose : kind? (u :: mid) = some .rbracket := congrArg some hu
  obtain ⟨first, rfl⟩ := h.rowItems (by omega) hclose hrow
  have hlen := first.length_le
  simp only [Symbol.size, List.length_cons] at hlen
  unfold dropSeparator at hmore
  by_cases hsep : kind? mid = some .comma ∨ kind? mid = some .semicolon
  · rw [if_pos hsep] at hmore
    obtain ⟨w, mid', rfl, hw⟩ : ∃ w mid', mid = w :: mid' ∧
        (w.kind = .comma ∨ w.kind = .semicolon) := by
      cases mid with
      | nil => simp at hsep
      | cons w mid' => exact ⟨w, mid', rfl, by simpa using hsep⟩
    simp only [List.length_cons] at hlen
    obtain ⟨more, rfl⟩ := h.items (by simp only [List.tail_cons]; omega) hrest hmore
    exact ⟨.nestedSep ht first hu hw more, rfl⟩
  · rw [if_neg hsep] at hmore
    obtain ⟨more, rfl⟩ := h.items (by omega) hrest hmore
    exact ⟨.nested ht first hu more, rfl⟩

/-- After an element comes a semicolon, a comma or the closing bracket. -/
theorem flat_succ {k : TokenKind} {pending : List Expr} {rows : List (List Expr)} (h : Sound n)
    (hn : 8 * ts.length + 6 ≤ n + 1) (hk : kind? ts = some k) (hclose : k ≠ .rbracket)
    (hopen : k ≠ .lbracket) (hrest : kind? rest = some .rbracket)
    (hr : Reads (Parser.items (n + 1) pending) ts rows rest) :
    ∃ d : Derivation .items ts rest, d.meaning pending = rows := by
  have hflat : kind? ts ≠ some .lbracket := by simp [hk, hopen]
  obtain ⟨x, mid, hx, hmid⟩ := (reads_items_flat hk hclose hopen).mp hr
  obtain ⟨⟨first, rfl⟩, hend⟩ := h.expression (by omega) hx
  have hlen := first.length_le
  simp only [Symbol.size] at hlen
  rcases hmid with ⟨hs, rows', hmore, rfl⟩ | ⟨hc, hmore⟩ | ⟨hs, hc, hmore⟩
  · obtain ⟨u, mid', rfl, hu⟩ := kind?_eq_some.mp hs
    simp only [List.length_cons] at hlen
    obtain ⟨more, rfl⟩ := h.items (by simp only [List.tail_cons]; omega) hrest hmore
    exact ⟨.flatSemicolon hflat first hu more, rfl⟩
  · obtain ⟨u, mid', rfl, hu⟩ := kind?_eq_some.mp hc
    simp only [List.length_cons] at hlen
    obtain ⟨more, rfl⟩ := h.items (by simp only [List.tail_cons]; omega) hrest hmore
    exact ⟨.flatComma hflat first hu more, rfl⟩
  · -- Nothing can be read on here but the closing bracket.
    obtain ⟨more, rfl⟩ := h.items (by omega) hrest hmore
    rcases more.begins with rfl | ⟨j, hj, hstart⟩
    · refine ⟨.flatLast hflat first hrest, ?_⟩
      cases Derivation.unique more .itemsEnd hrest hrest
      show [pending ++ [first.meaning]] = if (pending ++ [first.meaning]).isEmpty then [] else _
      simp
    · have hc := hend j hj
      cases j <;> simp [closes, startsOperand] at hc hstart

theorem items_succ {pending : List Expr} {rows : List (List Expr)} (h : Sound n)
    (hn : 8 * ts.length + 6 ≤ n + 1) (hrest : kind? rest = some .rbracket)
    (hr : Reads (Parser.items (n + 1) pending) ts rows rest) :
    ∃ d : Derivation .items ts rest, d.meaning pending = rows := by
  cases hk : kind? ts with
  | none =>
    obtain ⟨rfl, rfl⟩ := (reads_items_stop (.inl hk)).mp hr
    exact ⟨.itemsEnd, rfl⟩
  | some k =>
    by_cases hclose : k = .rbracket
    · obtain ⟨rfl, rfl⟩ := (reads_items_stop (.inr (hclose ▸ hk))).mp hr
      exact ⟨.itemsEnd, rfl⟩
    · by_cases hopen : k = .lbracket
      · subst hopen
        obtain ⟨t, ts', rfl, ht⟩ := kind?_eq_some.mp hk
        simp only [List.length_cons] at hn
        exact h.nested_succ (by omega) ht hrest hr
      · exact h.flat_succ hn hk hclose hopen hrest hr

theorem rowItems_succ {row : List Expr} (h : Sound n) (hn : 8 * ts.length + 6 ≤ n + 1)
    (hrest : kind? rest = some .rbracket) (hr : Reads (Parser.rowItems (n + 1)) ts row rest) :
    ∃ d : Derivation .row ts rest, d.meaning = row := by
  cases hk : kind? ts with
  | none =>
    obtain ⟨rfl, rfl⟩ := (reads_rowItems_stop (.inl hk)).mp hr
    exact ⟨.rowEnd, rfl⟩
  | some k =>
    by_cases hclose : k = .rbracket
    · obtain ⟨rfl, rfl⟩ := (reads_rowItems_stop (.inr (hclose ▸ hk))).mp hr
      exact ⟨.rowEnd, rfl⟩
    · obtain ⟨x, mid, hx, hmid⟩ := (reads_rowItems_next hk hclose).mp hr
      obtain ⟨⟨first, rfl⟩, -⟩ := h.expression (by omega) hx
      have hlen := first.length_le
      simp only [Symbol.size] at hlen
      rcases hmid with ⟨hc, row', hmore, rfl⟩ | ⟨-, rfl, rfl⟩
      · obtain ⟨u, mid', rfl, hu⟩ := kind?_eq_some.mp hc
        simp only [List.length_cons] at hlen
        obtain ⟨more, rfl⟩ := h.rowItems (by simp only [List.tail_cons]; omega) hrest hmore
        exact ⟨.rowNext first hu more, rfl⟩
      · exact ⟨.rowLast first, rfl⟩

end Sound

/-- What is read is derived. -/
theorem sound (n : Nat) : Sound n := by
  induction n with
  | zero => constructor <;> intros <;> omega
  | succ n ih =>
    exact ⟨ih.expression_succ, ih.sumTail_succ, ih.term_succ, ih.productTail_succ, ih.power_succ,
      ih.factor_succ, ih.matrix_succ, ih.items_succ, ih.rowItems_succ⟩

def rank : Symbol → Nat
  | .sum => 5
  | .sumTail => 1
  | .term | .termTail => 4
  | .power => 3
  | .factor => 2
  | .items | .row => 6

/-- A phrase is read at depth `n` and means `m`. -/
def ReadsAs (n : Nat) (ts : List Token) : (S : Symbol) → S.Meaning → List Token → Prop
  | .sum, m, rest => Reads (expression n) ts m rest
  | .sumTail, m, rest => ∀ left, Reads (sumTail n left) ts (m left) rest
  | .term, m, rest => Reads (term n) ts m rest
  | .termTail, m, rest => ∀ left, Reads (productTail n left) ts (m left) rest
  | .power, m, rest => Reads (power n) ts m rest
  | .factor, m, rest => Reads (factor n) ts m rest
  | .items, m, rest => ∀ pending, Reads (items n pending) ts (m pending) rest
  | .row, m, rest => Reads (rowItems n) ts m rest

/-- A phrase that may end where it does is read at every depth that is enough for its tokens. -/
def IsRead {S : Symbol} {ts rest : List Token} (d : Derivation S ts rest) : Prop :=
  S.Ends rest → ∀ n, 8 * ts.length + rank S ≤ n + 1 → ReadsAs (n + 1) ts S d.meaning rest

namespace IsRead
open Derivation
variable {S : Symbol} {ts mid rest : List Token} {t u w : Token} {n : Nat}

/-- The bounds on the depth leave room for one step more. -/
theorem reads {d : Derivation S ts rest} (h : IsRead d) (hend : S.Ends rest)
    (hn : 8 * ts.length + rank S ≤ n) : ReadsAs n ts S d.meaning rest := by
  obtain ⟨n, rfl⟩ : ∃ k, n = k + 1 := ⟨n - 1, by cases S <;> simp only [rank] at hn <;> omega⟩
  exact h hend n hn

section Sums
variable {right : Derivation .term ts mid} {tail : Derivation .sumTail mid rest}

theorem sum (hr : IsRead right) (ht : IsRead tail) : IsRead (Derivation.sum right tail) := by
  intro hend n hn
  have hlen := right.length_le
  simp only [rank, Symbol.size] at hn hlen
  have hright := hr.reads (n := n) (tail.ends_term hend) (by simp only [rank]; omega)
  have htail := ht.reads (n := n) hend (by simp only [rank]; omega)
  exact reads_expression.mpr ⟨_, _, hright, htail _⟩

/-- What may come after a sum is no sign that would go on with it. -/
theorem sumEnd : IsRead (sumEnd : Derivation .sumTail ts ts) := by
  intro hend n _ left
  refine (reads_sumTail_stop (Option.bind_eq_none_iff.mpr fun k hk => ?_)).mpr ⟨rfl, rfl⟩
  have hc := hend k hk
  cases k <;> simp [closes, sumOp?] at hc ⊢

theorem sumNext {op : BinOp} {hop : sumOp? t.kind = some op} {hsign : kind? ts ≠ some .minus}
    (hr : IsRead right) (ht : IsRead tail) :
    IsRead (Derivation.sumNext op hop hsign right tail) := by
  intro hend n hn left
  have hlen := right.length_le
  simp only [rank, Symbol.size, List.length_cons] at hn hlen
  have hright := hr.reads (n := n) (tail.ends_term hend) (by simp only [rank]; omega)
  have htail := ht.reads (n := n) hend (by simp only [rank]; omega)
  refine (reads_sumTail_next hop).mpr ⟨?_, _, _, hright, htail _⟩
  obtain ⟨k, hk, hs⟩ := right.begins
  rw [hk] at hsign ⊢
  cases k <;> simp [startsOperand, sumOp?] at hs hsign ⊢

end Sums

section Terms
variable {right : Derivation .power ts mid} {tail : Derivation .termTail mid rest}

theorem term (hr : IsRead right) (ht : IsRead tail) : IsRead (Derivation.term right tail) := by
  intro hend n hn
  have hlen := right.length_le
  simp only [rank, Symbol.size] at hn hlen
  have hright := hr.reads (n := n) (tail.ends_power hend) (by simp only [rank]; omega)
  have htail := ht.reads (n := n) hend (by simp only [rank]; omega)
  exact reads_term.mpr ⟨_, _, hright, htail _⟩

theorem termEnd : IsRead (termEnd : Derivation .termTail ts ts) := by
  intro hend n _ left
  refine (reads_productTail_stop fun k hk => ?_).mpr ⟨rfl, rfl⟩
  have hc := hend k hk
  cases k <;> simp [closes, sumOp?, productOp?, startsFactor] at hc ⊢

theorem product {op : BinOp} {hop : productOp? t.kind = some op} (hr : IsRead right)
    (ht : IsRead tail) : IsRead (Derivation.product op hop right tail) := by
  intro hend n hn left
  have hlen := right.length_le
  simp only [rank, Symbol.size, List.length_cons] at hn hlen
  have hright := hr.reads (n := n) (tail.ends_power hend) (by simp only [rank]; omega)
  have htail := ht.reads (n := n) hend (by simp only [rank]; omega)
  exact (reads_productTail_product hop).mpr ⟨_, _, hright, htail _⟩

theorem adjacent {right : Derivation .power (t :: ts) mid} {hs : startsFactor t.kind = true}
    (hr : IsRead right) (ht : IsRead tail) : IsRead (Derivation.adjacent hs right tail) := by
  intro hend n hn left
  have hlen := right.length_le
  simp only [rank, Symbol.size, List.length_cons] at hn hlen
  have hright := hr.reads (n := n) (tail.ends_power hend)
    (by simp only [rank, List.length_cons]; omega)
  have htail := ht.reads (n := n) hend (by simp only [rank]; omega)
  exact (reads_productTail_adjacent hs).mpr ⟨_, _, hright, htail _⟩

end Terms

section Powers

theorem base {only : Derivation .factor ts rest} (ho : IsRead only) :
    IsRead (Derivation.base only) := by
  intro hend n hn
  simp only [rank] at hn
  have honly := ho.reads (n := n) trivial (by simp only [rank]; omega)
  exact reads_power.mpr ⟨_, _, honly, .inr ⟨hend, rfl, rfl⟩⟩

theorem raised {left : Derivation .factor ts (t :: mid)} {ht : t.kind = .power}
    {exponent : Derivation .power mid rest} (hl : IsRead left) (he : IsRead exponent) :
    IsRead (Derivation.raised left ht exponent) := by
  intro hend n hn
  have hlen := left.length_le
  simp only [rank, Symbol.size, List.length_cons] at hn hlen
  have hleft := hl.reads (n := n) trivial (by simp only [rank]; omega)
  have hexponent := he.reads (n := n) hend (by simp only [rank]; omega)
  exact reads_power.mpr ⟨_, _, hleft, .inl ⟨congrArg some ht, _, hexponent, rfl⟩⟩

end Powers

section Factors
variable {inner : Derivation .sum ts (u :: rest)}

theorem negative {ht : t.kind = .minus} {arg : Derivation .factor ts rest} (ha : IsRead arg) :
    IsRead (Derivation.negative ht arg) := by
  intro _ n hn
  simp only [rank, List.length_cons] at hn
  have harg := ha.reads (n := n) trivial (by simp only [rank]; omega)
  exact (reads_factor_negative ht).mpr ⟨_, harg, rfl⟩

theorem parens {ht : t.kind = .lparen} {hu : u.kind = .rparen} (hi : IsRead inner) :
    IsRead (Derivation.parens ht inner hu) := by
  intro _ n hn
  simp only [rank, List.length_cons] at hn
  have hinner := hi.reads (n := n) (ends_sum hu rfl _) (by simp only [rank]; omega)
  exact (reads_factor_parens ht).mpr ⟨_, hinner, hu⟩

/-- A numeral and the other single tokens are read at once. -/
theorem numeral {ht : t.kind = .number} :
    IsRead (numeral t ht : Derivation .factor (t :: rest) rest) :=
  fun _ _ _ => (reads_factor_numeral ht).mpr ⟨rfl, rfl⟩

theorem imaginary {ht : t.kind = .identifier} {hi : t.text = "i"} :
    IsRead (imaginary ht hi : Derivation .factor (t :: rest) rest) :=
  fun _ _ _ => (reads_factor_imaginary ht hi).mpr ⟨rfl, rfl⟩

theorem call {ht : t.kind = .identifier} {hi : t.text ≠ "i"} {hw : w.kind = .lparen}
    {hu : u.kind = .rparen} (ha : IsRead inner) :
    IsRead (Derivation.call t ht hi hw inner hu) := by
  intro _ n hn
  simp only [rank, List.length_cons] at hn
  have harg := ha.reads (n := n) (ends_sum hu rfl _) (by simp only [rank]; omega)
  exact (reads_factor_call ht hi hw).mpr ⟨_, _, harg, hu, rfl⟩

theorem name {ht : t.kind = .identifier} {hi : t.text ≠ "i"} {hrest : kind? rest ≠ some .lparen} :
    IsRead (Derivation.name t ht hi hrest) :=
  fun _ _ _ => (reads_factor_name ht hi hrest).mpr ⟨rfl, rfl⟩

theorem matrix {ht : t.kind = .lbracket} {hne : kind? ts ≠ some .rbracket}
    {inner : Derivation .items ts (u :: rest)} {hu : u.kind = .rbracket} (hi : IsRead inner) :
    IsRead (Derivation.matrix ht hne inner hu) := by
  intro _ n hn
  simp only [rank, List.length_cons] at hn
  obtain ⟨n, rfl⟩ : ∃ k, n = k + 1 := ⟨n - 1, by omega⟩
  have hinner := hi.reads (n := n) (congrArg some hu) (by simp only [rank]; omega)
  have hrows : inner.meaning [] ≠ [] :=
    fun h => hne ((inner.meaning_nil_iff (congrArg some hu)).mp h)
  exact (reads_factor_matrix ht).mpr ((reads_matrix ht).mpr ⟨_, _, hinner [], hu, hrows, rfl⟩)

end Factors

section Items
variable {more : Derivation .items mid rest}

/-- The loop over items stops at the closing bracket. -/
theorem itemsEnd : IsRead (itemsEnd : Derivation .items ts ts) :=
  fun hend _ _ _ => (reads_items_stop (.inr hend)).mpr ⟨rfl, rfl⟩

theorem nested {ht : t.kind = .lbracket} {first : Derivation .row ts (u :: mid)}
    {hu : u.kind = .rbracket} (hf : IsRead first) (hm : IsRead more) :
    IsRead (Derivation.nested ht first hu more) := by
  intro hend n hn pending
  have hlen := first.length_le
  simp only [rank, Symbol.size, List.length_cons] at hn hlen
  have hfirst := hf.reads (n := n) (congrArg some hu) (by simp only [rank]; omega)
  have hmore := hm.reads (n := n) hend (by simp only [rank]; omega)
  refine (reads_items_nested ht).mpr ⟨_, _, _, _, hfirst, hu, ?_, rfl⟩
  rw [dropSeparator_of_not (more.not_separator hend)]
  exact hmore pending

theorem nestedSep {ht : t.kind = .lbracket} {first : Derivation .row ts (u :: w :: mid)}
    {hu : u.kind = .rbracket} {hw : w.kind = .comma ∨ w.kind = .semicolon} (hf : IsRead first)
    (hm : IsRead more) : IsRead (Derivation.nestedSep ht first hu hw more) := by
  intro hend n hn pending
  have hlen := first.length_le
  simp only [rank, Symbol.size, List.length_cons] at hn hlen
  have hfirst := hf.reads (n := n) (congrArg some hu) (by simp only [rank]; omega)
  have hmore := hm.reads (n := n) hend (by simp only [rank]; omega)
  refine (reads_items_nested ht).mpr ⟨_, _, _, _, hfirst, hu, ?_, rfl⟩
  rw [dropSeparator_cons hw]
  exact hmore pending

theorem flatComma {hflat : kind? ts ≠ some .lbracket} {first : Derivation .sum ts (u :: mid)}
    {hu : u.kind = .comma} (hf : IsRead first) (hm : IsRead more) :
    IsRead (Derivation.flatComma hflat first hu more) := by
  intro hend n hn pending
  have hlen := first.length_le
  simp only [rank, Symbol.size, List.length_cons] at hn hlen
  have hfirst := hf.reads (n := n) (ends_sum hu rfl _) (by simp only [rank]; omega)
  have hmore := hm.reads (n := n) hend (by simp only [rank]; omega)
  exact (reads_items_sum first hflat).mpr
    ⟨_, _, hfirst, .inr (.inl ⟨congrArg some hu, hmore _⟩)⟩

theorem flatSemicolon {hflat : kind? ts ≠ some .lbracket} {first : Derivation .sum ts (u :: mid)}
    {hu : u.kind = .semicolon} (hf : IsRead first) (hm : IsRead more) :
    IsRead (Derivation.flatSemicolon hflat first hu more) := by
  intro hend n hn pending
  have hlen := first.length_le
  simp only [rank, Symbol.size, List.length_cons] at hn hlen
  have hfirst := hf.reads (n := n) (ends_sum hu rfl _) (by simp only [rank]; omega)
  have hmore := hm.reads (n := n) hend (by simp only [rank]; omega)
  exact (reads_items_sum first hflat).mpr
    ⟨_, _, hfirst, .inl ⟨congrArg some hu, _, hmore _, rfl⟩⟩

theorem flatLast {hflat : kind? ts ≠ some .lbracket} {last : Derivation .sum ts rest}
    {hrest : kind? rest = some .rbracket} (hl : IsRead last) :
    IsRead (Derivation.flatLast hflat last hrest) := by
  intro _ n hn pending
  simp only [rank] at hn
  obtain ⟨n, rfl⟩ : ∃ k, n = k + 1 := ⟨n - 1, by omega⟩
  have hlast := hl.reads (n := n + 1) (ends_sum_of_rbracket hrest) (by simp only [rank]; omega)
  refine (reads_items_sum last hflat).mpr ⟨_, _, hlast, .inr (.inr ⟨?_, ?_, ?_⟩)⟩
  · simp [hrest]
  · simp [hrest]
  · exact (reads_items_stop (.inr hrest)).mpr ⟨if_neg (by simp), rfl⟩

end Items

section Rows

theorem rowEnd : IsRead (rowEnd : Derivation .row ts ts) :=
  fun hend _ _ => (reads_rowItems_stop (.inr hend)).mpr ⟨rfl, rfl⟩

theorem rowLast {last : Derivation .sum ts rest} (hl : IsRead last) :
    IsRead (Derivation.rowLast last) := by
  intro hend n hn
  simp only [rank] at hn
  have hlast := hl.reads (n := n) (ends_sum_of_rbracket hend) (by simp only [rank]; omega)
  refine (reads_rowItems_sum last).mpr ⟨_, _, hlast, .inr ⟨?_, rfl, rfl⟩⟩
  intro hc
  cases hc.symm.trans hend

theorem rowNext {first : Derivation .sum ts (u :: mid)} {hu : u.kind = .comma}
    {more : Derivation .row mid rest} (hf : IsRead first) (hm : IsRead more) :
    IsRead (Derivation.rowNext first hu more) := by
  intro hend n hn
  have hlen := first.length_le
  simp only [rank, Symbol.size, List.length_cons] at hn hlen
  have hfirst := hf.reads (n := n) (ends_sum hu rfl _) (by simp only [rank]; omega)
  have hmore := hm.reads (n := n) hend (by simp only [rank]; omega)
  exact (reads_rowItems_sum first).mpr ⟨_, _, hfirst, .inl ⟨congrArg some hu, _, hmore, rfl⟩⟩

end Rows
end IsRead

/-- What is derived is read, unless it could be read further. -/
theorem isRead {S : Symbol} {ts rest : List Token} (d : Derivation S ts rest) : IsRead d := by
  induction d with
  | sum _ _ ih ih' => exact ih.sum ih'
  | sumEnd => exact .sumEnd
  | sumNext _ _ _ _ _ ih ih' => exact ih.sumNext ih'
  | term _ _ ih ih' => exact ih.term ih'
  | termEnd => exact .termEnd
  | product _ _ _ _ ih ih' => exact ih.product ih'
  | adjacent _ _ _ ih ih' => exact ih.adjacent ih'
  | base _ ih => exact ih.base
  | raised _ _ _ ih ih' => exact ih.raised ih'
  | negative _ _ ih => exact ih.negative
  | parens _ _ _ ih => exact ih.parens
  | numeral => exact .numeral
  | imaginary => exact .imaginary
  | call _ _ _ _ _ _ ih => exact ih.call
  | name => exact .name
  | matrix _ _ _ _ ih => exact ih.matrix
  | itemsEnd => exact .itemsEnd
  | nested _ _ _ _ ih ih' => exact ih.nested ih'
  | nestedSep _ _ _ _ _ ih ih' => exact ih.nestedSep ih'
  | flatComma _ _ _ _ ih ih' => exact ih.flatComma ih'
  | flatSemicolon _ _ _ _ ih ih' => exact ih.flatSemicolon ih'
  | flatLast _ _ _ ih => exact ih.flatLast
  | rowEnd => exact .rowEnd
  | rowLast _ ih => exact ih.rowLast
  | rowNext _ _ _ ih ih' => exact ih.rowNext ih'

/-- Reading a sum finds the derivation that goes as far as any. -/
theorem reads_whole_expression {ts rest : List Token} {e : Expr} :
    Reads (whole expression) ts e rest ↔
      (∃ d : Derivation .sum ts rest, d.meaning = e) ∧ Symbol.sum.Ends rest := by
  have hdepth : 8 * ts.length + 5 ≤ depth ts := by
    simp only [depth]
    omega
  rw [reads_whole]
  constructor
  · exact (sound _).expression hdepth
  · rintro ⟨⟨d, rfl⟩, hend⟩
    exact (isRead d).reads hend hdepth

end Reckoner.Parser
