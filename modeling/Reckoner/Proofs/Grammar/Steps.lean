import Reckoner.Proofs.Grammar

namespace Reckoner.Parser
open Grammar

section Steps
variable {α β : Type} {ts rest : List Token} {t : Token}

/-- The reading succeeds and leaves `rest`. -/
def Reads (r : Read α) (ts : List Token) (a : α) (rest : List Token) : Prop :=
  r.from ts = (.ok a, rest)

@[simp]
theorem reads_pure {a b : α} : Reads (pure a) ts b rest ↔ a = b ∧ ts = rest := by
  show (Except.ok a, ts) = (.ok b, rest) ↔ _
  simp

@[simp]
theorem reads_fail {a : α} {e : SyntaxError} : ¬ Reads (fail e : Read α) ts a rest := by
  intro h
  cases h

/-- A reading that fails ends the whole reading. -/
theorem from_bind (r : Read α) (f : α → Read β) (ts : List Token) :
    (r >>= f).from ts = match r.from ts with
      | (.ok a, mid) => (f a).from mid
      | (.error e, mid) => (.error e, mid) := by
  simp only [Read.from, ExceptT.run_bind, StateT.run_bind]
  rcases r.run.run ts with ⟨x, mid⟩
  cases x <;> rfl

/-- A reading of two parts succeeds if both do, one after the other. -/
theorem reads_bind {b : β} {r : Read α} {f : α → Read β} :
    Reads (r >>= f) ts b rest ↔ ∃ a mid, Reads r ts a mid ∧ Reads (f a) mid b rest := by
  unfold Reads
  rw [from_bind]
  rcases r.from ts with ⟨x, mid⟩
  cases x with
  | error e => simp
  | ok a =>
    constructor
    · exact fun h => ⟨a, mid, rfl, h⟩
    · rintro ⟨a', mid', hr, h⟩
      cases hr
      exact h

/-- Looking ahead takes nothing. -/
@[simp]
theorem reads_nextKind?_bind {b : β} {f : Option TokenKind → Read β} :
    Reads (nextKind? >>= f) ts b rest ↔ Reads (f (kind? ts)) ts b rest :=
  Iff.rfl

@[simp]
theorem reads_next?_bind {b : β} {f : Option Token → Read β} :
    Reads (next? >>= f) ts b rest ↔ Reads (f ts.head?) ts b rest :=
  Iff.rfl

@[simp]
theorem reads_take_bind {b : β} {f : Token → Read β} :
    Reads (take >>= f) (t :: ts) b rest ↔ Reads (f t) ts b rest :=
  Iff.rfl

theorem reads_whole {a : α} {r : Nat → Read α} :
    Reads (whole r) ts a rest ↔ Reads (r (depth ts)) ts a rest :=
  Iff.rfl

theorem name_inj {j k : TokenKind} : j.name = k.name ↔ j = k := by
  constructor
  · cases j <;> cases k <;> decide
  · exact congrArg _

/-- A token of the given kind must come next. -/
@[simp]
theorem reads_takeKind {k : TokenKind} :
    Reads (takeKind k) ts t rest ↔ ts = t :: rest ∧ t.kind = k := by
  cases ts with
  | nil => exact ⟨fun h => (nomatch h), fun h => (nomatch h.1)⟩
  | cons u us =>
    have hfrom : (takeKind k).from (u :: us) =
        (if u.kind.name = k.name then (do set us; return u : Read Token)
          else fail (.expected k.name u.kind)).from (u :: us) := rfl
    unfold Reads
    rw [hfrom]
    by_cases hk : u.kind = k
    · subst hk
      rw [if_pos rfl]
      show (Except.ok u, us) = (.ok t, rest) ↔ _
      simp only [Prod.mk.injEq, Except.ok.injEq, List.cons.injEq]
      exact ⟨fun h => ⟨h, by rw [h.1]⟩, And.left⟩
    · rw [if_neg (fun h => hk (name_inj.mp h))]
      refine ⟨fun h => (nomatch h), ?_⟩
      rintro ⟨h, ht⟩
      cases h
      exact absurd ht hk

theorem reads_takeKind_bind {b : β} {k : TokenKind} {f : Token → Read β} :
    Reads (takeKind k >>= f) ts b rest ↔
      ∃ t ts', ts = t :: ts' ∧ t.kind = k ∧ Reads (f t) ts' b rest := by
  simp only [reads_bind, reads_takeKind, and_assoc]

theorem reads_takeKind_cons {b : β} {k : TokenKind} {f : Token → Read β} (h : t.kind = k) :
    Reads (takeKind k >>= f) (t :: ts) b rest ↔ Reads (f t) ts b rest := by
  rw [reads_takeKind_bind]
  constructor
  · rintro ⟨_, _, heq, -, hf⟩
    cases heq
    exact hf
  · exact fun hf => ⟨t, ts, rfl, h, hf⟩

theorem reads_bind_pure {b : β} {r : Read α} {f : α → β} :
    Reads (r >>= fun a => pure (f a)) ts b rest ↔ ∃ a, Reads r ts a rest ∧ f a = b := by
  rw [reads_bind]
  refine exists_congr fun a => ⟨?_, fun h => ⟨rest, h.1, reads_pure.mpr ⟨h.2, rfl⟩⟩⟩
  rintro ⟨mid, hr, h⟩
  obtain ⟨hb, rfl⟩ := reads_pure.mp h
  exact ⟨hr, hb⟩

theorem reads_map {b : β} {r : Read α} {f : α → β} :
    Reads (f <$> r) ts b rest ↔ ∃ a, Reads r ts a rest ∧ f a = b := by
  rw [← bind_pure_comp, reads_bind_pure]

/-- A reading with a token of a given kind after it. -/
theorem reads_bind_takeKind {b : β} {r : Read α} {k : TokenKind} {f : α → Read β} :
    Reads (r >>= fun a => takeKind k >>= fun _ => f a) ts b rest ↔
      ∃ a u mid, Reads r ts a (u :: mid) ∧ u.kind = k ∧ Reads (f a) mid b rest := by
  rw [reads_bind]
  refine exists_congr fun a => ?_
  simp only [reads_bind, reads_takeKind]
  constructor
  · rintro ⟨_, hr, u, mid, ⟨rfl, hu⟩, h⟩
    exact ⟨u, mid, hr, hu, h⟩
  · rintro ⟨u, mid, hr, hu, h⟩
    exact ⟨u :: mid, hr, u, mid, ⟨rfl, hu⟩, h⟩

end Steps

section Phrases
variable {n : Nat} {t u : Token} {ts rest : List Token} {e l : Expr} {op : BinOp}

-- Readings are unfolded in this section only; later proofs go by the equivalences.
attribute [local simp] expression sumTail term productTail power factor matrix items rowItems

/-- A sum is a term and its tail. -/
theorem reads_expression : Reads (expression (n + 1)) ts e rest ↔
    ∃ l mid, Reads (term n) ts l mid ∧ Reads (sumTail n l) mid e rest := by
  rw [expression, reads_bind]

theorem reads_sumTail_stop (h : (kind? ts).bind sumOp? = none) :
    Reads (sumTail (n + 1) l) ts e rest ↔ l = e ∧ ts = rest := by
  rw [sumTail, reads_nextKind?_bind, h, reads_pure]

theorem reads_sumTail_next (h : sumOp? t.kind = some op) :
    Reads (sumTail (n + 1) l) (t :: ts) e rest ↔ (kind? ts).bind sumOp? = none ∧
      ∃ r mid, Reads (term n) ts r mid ∧ Reads (sumTail n (.binary op l r)) mid e rest := by
  rw [sumTail, reads_nextKind?_bind]
  simp only [kind?_cons, Option.bind_some, h, reads_take_bind, reads_nextKind?_bind]
  cases (kind? ts).bind sumOp? with
  | none => simp [reads_bind]
  | some op' => simp [reads_bind]

theorem reads_term : Reads (term (n + 1)) ts e rest ↔
    ∃ l mid, Reads (power n) ts l mid ∧ Reads (productTail n l) mid e rest := by
  rw [term, reads_bind]

theorem reads_productTail_stop
    (h : ∀ k, kind? ts = some k → productOp? k = none ∧ startsFactor k = false) :
    Reads (productTail (n + 1) l) ts e rest ↔ l = e ∧ ts = rest := by
  rw [productTail, reads_nextKind?_bind]
  cases hk : kind? ts with
  | none => simp
  | some k => simp [h k hk]

theorem reads_productTail_product (h : productOp? t.kind = some op) :
    Reads (productTail (n + 1) l) (t :: ts) e rest ↔
      ∃ r mid, Reads (power n) ts r mid ∧ Reads (productTail n (.binary op l r)) mid e rest := by
  rw [productTail, reads_nextKind?_bind]
  simp only [kind?_cons, h, reads_take_bind]
  rw [reads_bind]

theorem reads_productTail_adjacent (h : startsFactor t.kind = true) :
    Reads (productTail (n + 1) l) (t :: ts) e rest ↔
      ∃ r mid, Reads (power n) (t :: ts) r mid ∧
        Reads (productTail n (.binary .mul l r)) mid e rest := by
  have hop : productOp? t.kind = none := by
    cases hk : t.kind <;> simp [hk, startsFactor, productOp?] at h ⊢
  rw [productTail, reads_nextKind?_bind]
  simp only [kind?_cons, hop, h, if_true]
  rw [reads_bind]

/-- An exponent is a power itself, so powers group to the right. -/
theorem reads_power : Reads (power (n + 1)) ts e rest ↔
    ∃ b mid, Reads (factor n) ts b mid ∧
      (kind? mid = some .power ∧ (∃ x, Reads (power n) mid.tail x rest ∧ .binary .pow b x = e) ∨
        kind? mid ≠ some .power ∧ b = e ∧ mid = rest) := by
  rw [power, reads_bind]
  refine exists_congr fun b => exists_congr fun mid => and_congr_right fun _ => ?_
  rw [reads_nextKind?_bind]
  by_cases hp : kind? mid = some .power
  · obtain ⟨t, mid', rfl, ht⟩ := kind?_eq_some.mp hp
    simp only [hp, if_true, reads_take_bind, reads_bind_pure, List.tail_cons, true_and, ne_eq,
      not_true_eq_false, false_and, or_false]
  · simp only [hp, if_false, reads_pure, false_and, false_or, ne_eq, not_false_eq_true, true_and]

theorem reads_factor_nil : ¬ Reads (factor (n + 1)) [] e rest := by
  rw [factor, reads_next?_bind]
  exact reads_fail

theorem reads_factor_negative (h : t.kind = .minus) :
    Reads (factor (n + 1)) (t :: ts) e rest ↔
      ∃ a, Reads (factor n) ts a rest ∧ .unary .neg a = e := by
  rw [factor, reads_next?_bind]
  simp only [List.head?_cons, h, reads_take_bind, reads_bind_pure]

theorem reads_factor_parens (h : t.kind = .lparen) :
    Reads (factor (n + 1)) (t :: ts) e rest ↔
      ∃ u, Reads (expression n) ts e (u :: rest) ∧ u.kind = .rparen := by
  rw [factor, reads_next?_bind]
  simp only [List.head?_cons, h, reads_take_bind, reads_bind_takeKind, reads_pure]
  constructor
  · rintro ⟨_, u, _, hr, hu, rfl, rfl⟩
    exact ⟨u, hr, hu⟩
  · rintro ⟨u, hr, hu⟩
    exact ⟨e, u, rest, hr, hu, rfl, rfl⟩

theorem reads_factor_matrix (h : t.kind = .lbracket) :
    Reads (factor (n + 1)) (t :: ts) e rest ↔ Reads (matrix n) (t :: ts) e rest := by
  rw [factor, reads_next?_bind]
  simp only [List.head?_cons, h]

theorem reads_factor_numeral (h : t.kind = .number) :
    Reads (factor (n + 1)) (t :: ts) e rest ↔ .number t.text = e ∧ ts = rest := by
  rw [factor, reads_next?_bind]
  simp only [List.head?_cons, h, reads_take_bind, reads_pure]

theorem reads_factor_imaginary (h : t.kind = .identifier) (hi : t.text = "i") :
    Reads (factor (n + 1)) (t :: ts) e rest ↔ .imaginary = e ∧ ts = rest := by
  rw [factor, reads_next?_bind]
  simp only [List.head?_cons, h, reads_take_bind, hi, if_true, reads_pure]

/-- A name is a call if a parenthesis opens right after it. -/
theorem reads_factor_call (h : t.kind = .identifier) (hi : t.text ≠ "i") (hu : u.kind = .lparen) :
    Reads (factor (n + 1)) (t :: u :: ts) e rest ↔
      ∃ a w, Reads (expression n) ts a (w :: rest) ∧ w.kind = .rparen ∧ .call t.text a = e := by
  rw [factor, reads_next?_bind]
  simp only [List.head?_cons, h, reads_take_bind, hi, if_false, reads_nextKind?_bind, kind?_cons,
    hu, if_true, reads_bind_takeKind, reads_pure]
  constructor
  · rintro ⟨a, w, _, hr, hw, he, rfl⟩
    exact ⟨a, w, hr, hw, he⟩
  · rintro ⟨a, w, hr, hw, he⟩
    exact ⟨a, w, rest, hr, hw, he, rfl⟩

theorem reads_factor_name (h : t.kind = .identifier) (hi : t.text ≠ "i")
    (hts : kind? ts ≠ some .lparen) :
    Reads (factor (n + 1)) (t :: ts) e rest ↔ .var t.text = e ∧ ts = rest := by
  rw [factor, reads_next?_bind]
  simp only [List.head?_cons, h, reads_take_bind, hi, if_false, reads_nextKind?_bind, hts,
    reads_pure]

/-- No other token begins a factor. -/
theorem startsOperand_of_reads_factor (h : Reads (factor (n + 1)) (t :: ts) e rest) :
    startsOperand t.kind = true := by
  rw [factor, reads_next?_bind] at h
  cases hk : t.kind <;> first | rfl | (simp [hk] at h)

/-- A matrix has a row, and is closed by its bracket. -/
theorem reads_matrix (h : t.kind = .lbracket) :
    Reads (matrix (n + 1)) (t :: ts) e rest ↔
      ∃ rows u, Reads (items n []) ts rows (u :: rest) ∧ u.kind = .rbracket ∧ rows ≠ [] ∧
        .matrix rows = e := by
  rw [matrix, reads_takeKind_cons h, reads_bind_takeKind]
  refine exists_congr fun rows => exists_congr fun u => ?_
  cases rows with
  | nil =>
    simp only [List.isEmpty_nil, if_true, reads_bind, reads_fail, false_and, exists_false,
      and_false, ne_eq, not_true_eq_false]
  | cons r rs =>
    simp only [List.isEmpty_cons, Bool.false_eq_true, if_false, reads_pure]
    constructor
    · rintro ⟨_, hr, hu, he, rfl⟩
      exact ⟨hr, hu, List.cons_ne_nil _ _, he⟩
    · rintro ⟨hr, hu, -, he⟩
      exact ⟨rest, hr, hu, he, rfl⟩

def dropSeparator (ts : List Token) : List Token :=
  if kind? ts = some .comma ∨ kind? ts = some .semicolon then ts.tail else ts

theorem dropSeparator_of_not {ts : List Token}
    (h : kind? ts ≠ some .comma ∧ kind? ts ≠ some .semicolon) : dropSeparator ts = ts :=
  if_neg (by simp [h])

theorem dropSeparator_cons {w : Token} {ts : List Token}
    (hw : w.kind = .comma ∨ w.kind = .semicolon) : dropSeparator (w :: ts) = ts :=
  if_pos (by simpa using hw)

variable {pending row : List Expr} {rows : List (List Expr)}

theorem reads_items_stop (h : kind? ts = none ∨ kind? ts = some .rbracket) :
    Reads (items (n + 1) pending) ts rows rest ↔
      (if pending.isEmpty then [] else [pending]) = rows ∧ ts = rest := by
  rw [items, reads_nextKind?_bind]
  rcases h with h | h <;> simp only [h, reads_pure]

theorem reads_items_nested (h : t.kind = .lbracket) :
    Reads (items (n + 1) pending) (t :: ts) rows rest ↔
      ∃ r u mid rows', Reads (rowItems n) ts r (u :: mid) ∧ u.kind = .rbracket ∧
        Reads (items n pending) (dropSeparator mid) rows' rest ∧ r :: rows' = rows := by
  rw [items, reads_nextKind?_bind]
  simp only [kind?_cons, h, reads_take_bind, reads_bind_takeKind, reads_nextKind?_bind]
  refine exists_congr fun r => exists_congr fun u => exists_congr fun mid => ?_
  have hrest : Reads (if (kind? mid = some .comma || kind? mid = some .semicolon : Bool) then do
        let _ ← take
        let rows ← items n pending
        pure (r :: rows)
      else do
        let rows ← items n pending
        pure (r :: rows)) mid rows rest ↔
      ∃ rows', Reads (items n pending) (dropSeparator mid) rows' rest ∧ r :: rows' = rows := by
    by_cases hsep : kind? mid = some .comma ∨ kind? mid = some .semicolon
    · obtain ⟨w, mid', rfl⟩ : ∃ w mid', mid = w :: mid' := by
        cases mid with
        | nil => simp at hsep
        | cons w mid' => exact ⟨w, mid', rfl⟩
      rw [if_pos (by simpa using hsep), reads_take_bind, reads_bind_pure, dropSeparator,
        if_pos hsep, List.tail_cons]
    · rw [if_neg (by simpa using hsep), reads_bind_pure, dropSeparator, if_neg hsep]
  rw [hrest]
  simp only [exists_and_left]

theorem reads_items_flat {k : TokenKind} (h : kind? ts = some k) (hr : k ≠ .rbracket)
    (hl : k ≠ .lbracket) :
    Reads (items (n + 1) pending) ts rows rest ↔
      ∃ x mid, Reads (expression n) ts x mid ∧
        (kind? mid = some .semicolon ∧
            (∃ rows', Reads (items n []) mid.tail rows' rest ∧ (pending ++ [x]) :: rows' = rows) ∨
          kind? mid = some .comma ∧ Reads (items n (pending ++ [x])) mid.tail rows rest ∨
          kind? mid ≠ some .semicolon ∧ kind? mid ≠ some .comma ∧
            Reads (items n (pending ++ [x])) mid rows rest) := by
  rw [items, reads_nextKind?_bind]
  simp only [h]
  rw [reads_bind]
  refine exists_congr fun x => exists_congr fun mid => and_congr_right fun _ => ?_
  rw [reads_nextKind?_bind]
  by_cases hs : kind? mid = some .semicolon
  · obtain ⟨u, mid', rfl, hu⟩ := kind?_eq_some.mp hs
    simp only [kind?_cons, hu, reads_take_bind, reads_bind_pure, List.tail_cons, true_and, ne_eq,
      not_true_eq_false, false_and, or_false, Option.some.injEq, reduceCtorEq]
  · by_cases hc : kind? mid = some .comma
    · obtain ⟨u, mid', rfl, hu⟩ := kind?_eq_some.mp hc
      simp only [kind?_cons, hu, reads_take_bind, List.tail_cons, true_and, ne_eq,
        not_true_eq_false, false_and, and_false, or_false, false_or, Option.some.injEq,
        reduceCtorEq]
    · simp only [hs, hc, false_and, false_or, ne_eq, not_false_eq_true, true_and]

/-- A sum where an item is expected. -/
theorem reads_items_sum {mid' : List Token} (d : Derivation .sum ts mid')
    (hflat : kind? ts ≠ some .lbracket) :
    Reads (items (n + 1) pending) ts rows rest ↔
      ∃ x mid, Reads (expression n) ts x mid ∧
        (kind? mid = some .semicolon ∧
            (∃ rows', Reads (items n []) mid.tail rows' rest ∧ (pending ++ [x]) :: rows' = rows) ∨
          kind? mid = some .comma ∧ Reads (items n (pending ++ [x])) mid.tail rows rest ∨
          kind? mid ≠ some .semicolon ∧ kind? mid ≠ some .comma ∧
            Reads (items n (pending ++ [x])) mid rows rest) := by
  obtain ⟨k, hk, -⟩ := d.begins
  exact reads_items_flat hk (fun h => d.kind?_ne_rbracket (h ▸ hk)) (fun h => hflat (h ▸ hk))

theorem reads_rowItems_stop (h : kind? ts = none ∨ kind? ts = some .rbracket) :
    Reads (rowItems (n + 1)) ts row rest ↔ [] = row ∧ ts = rest := by
  rw [rowItems, reads_nextKind?_bind]
  rcases h with h | h <;> simp only [h, reads_pure]

theorem reads_rowItems_next {k : TokenKind} (h : kind? ts = some k) (hr : k ≠ .rbracket) :
    Reads (rowItems (n + 1)) ts row rest ↔
      ∃ x mid, Reads (expression n) ts x mid ∧
        (kind? mid = some .comma ∧
            (∃ row', Reads (rowItems n) mid.tail row' rest ∧ x :: row' = row) ∨
          kind? mid ≠ some .comma ∧ [x] = row ∧ mid = rest) := by
  rw [rowItems, reads_nextKind?_bind]
  simp only [h]
  rw [reads_bind]
  refine exists_congr fun x => exists_congr fun mid => and_congr_right fun _ => ?_
  rw [reads_nextKind?_bind]
  by_cases hc : kind? mid = some .comma
  · obtain ⟨u, mid', rfl, hu⟩ := kind?_eq_some.mp hc
    simp only [hc, if_true, reads_take_bind, reads_bind_pure, List.tail_cons, true_and, ne_eq,
      not_true_eq_false, false_and, or_false]
  · simp only [hc, if_false, reads_pure, false_and, false_or, ne_eq, not_false_eq_true, true_and]

theorem reads_rowItems_sum {mid' : List Token} (d : Derivation .sum ts mid') :
    Reads (rowItems (n + 1)) ts row rest ↔
      ∃ x mid, Reads (expression n) ts x mid ∧
        (kind? mid = some .comma ∧
            (∃ row', Reads (rowItems n) mid.tail row' rest ∧ x :: row' = row) ∨
          kind? mid ≠ some .comma ∧ [x] = row ∧ mid = rest) := by
  obtain ⟨k, hk, -⟩ := d.begins
  exact reads_rowItems_next hk (fun h => d.kind?_ne_rbracket (h ▸ hk))

end Phrases

end Reckoner.Parser
