import Mathlib
import Reckoner.Proofs.Formula
import Reckoner.Proofs.Polynomial.Terms

namespace Reckoner

/-- What is put in order by insertion is in order. -/
theorem Sorted.pairwise_sort {α : Type} {le : α → α → Bool} (htotal : ∀ a b, le a b ∨ le b a)
    (htrans : ∀ a b c, le a b → le b c → le a c) (as : List α) :
    (sort le as).Pairwise (fun a b => le a b = true) := by
  have hinsert (a : α) (bs : List α) :
      insert le a bs = bs.orderedInsert (fun a b => le a b = true) a := by
    induction bs with
    | nil => rfl
    | cons b bs ih => rw [insert, List.orderedInsert, ih]
  have hsort : sort le as = as.insertionSort (fun a b => le a b = true) := by
    induction as with
    | nil => rfl
    | cons a as ih => rw [sort, List.insertionSort_cons, ih, hinsert]
  have : Std.Total (fun a b => le a b = true) := ⟨htotal⟩
  have : IsTrans α (fun a b => le a b = true) := ⟨htrans⟩
  rw [hsort]
  exact List.pairwise_insertionSort _ as

namespace Polynomial
open Formula

section Leading
variable {p : Polynomial} {k : Nat} {c : Rat} {t : Int × Rat} {ts : List (Int × Rat)}

/-- The highest power with a coefficient that is not zero. -/
structure Leads (p : Polynomial) (k : Nat) (c : Rat) : Prop where
  coeff_eq : p.coeff k = c
  ne_zero : c ≠ 0
  top : ∀ j : Int, k < j → p.coeff j = 0

theorem mem_shownTerms_iff (h : (powers p.terms).Nodup) (j : Int) (c : Rat) :
    (j, c) ∈ p.shownTerms ↔ p.coeff j = c ∧ c ≠ 0 := by
  rw [mem_shownTerms, mem_terms_iff h]
  constructor
  · rintro ⟨⟨-, hc⟩, hne⟩
    exact ⟨hc, hne⟩
  · rintro ⟨rfl, hne⟩
    refine ⟨⟨?_, rfl⟩, hne⟩
    by_contra hmem
    exact hne (by rw [coeff, lookup_of_notMem hmem]; rfl)

/-- The first term that is shown has the highest power. -/
theorem shownTerms_sorted (h : p.shownTerms = t :: ts) : ∀ s ∈ p.shownTerms, s.1 ≤ t.1 := by
  have hpairs : p.shownTerms.Pairwise (fun s t => decide (t.1 ≤ s.1) = true) := by
    apply Sorted.pairwise_sort
    · intro s t
      simpa using le_total t.1 s.1
    · intro r s t hrs hst
      simp only [decide_eq_true_eq] at hrs hst ⊢
      exact hst.trans hrs
  rw [h, List.pairwise_cons] at hpairs
  rw [h]
  intro s hs
  rcases List.mem_cons.mp hs with rfl | hs
  · exact le_refl _
  · exact of_decide_eq_true (hpairs.1 s hs)

/-- The leading term is the first one shown. -/
theorem leads_iff (h : (powers p.terms).Nodup) :
    p.Leads k c ↔ ∃ ts, p.shownTerms = ((k : Int), c) :: ts := by
  constructor
  · intro hk
    have hmem : ((k : Int), c) ∈ p.shownTerms := (mem_shownTerms_iff h _ _).mpr ⟨hk.1, hk.2⟩
    obtain ⟨t, ts, ht⟩ := List.exists_cons_of_ne_nil (List.ne_nil_of_mem hmem)
    have hle : (k : Int) ≤ t.1 := shownTerms_sorted ht _ hmem
    obtain ⟨hcoeff, hne⟩ := (mem_shownTerms_iff h t.1 t.2).mp (by rw [ht]; exact List.mem_cons_self)
    have heq : t.1 = k := by
      by_contra hlt
      exact hne (hcoeff.symm.trans (hk.top t.1 (by omega)))
    refine ⟨ts, ?_⟩
    rw [ht, ← heq, ← hk.coeff_eq, ← heq, hcoeff]
  · rintro ⟨ts, hts⟩
    obtain ⟨hcoeff, hne⟩ :=
      (mem_shownTerms_iff h (k : Int) c).mp (by rw [hts]; exact List.mem_cons_self)
    refine ⟨hcoeff, hne, fun j hj => ?_⟩
    by_contra hzero
    have hle := shownTerms_sorted hts (j, p.coeff j) ((mem_shownTerms_iff h _ _).mpr ⟨rfl, hzero⟩)
    exact absurd hle (not_le.mpr hj)

end Leading

section Terms
variable {x : String} {k : Nat} {c q : Rat} {s : Scope} {run : Scope → Expr → Except Error Value}

def ratio (c : Rat) : Formula :=
  if c.den = 1 then .number c.num.natAbs else .fraction c.num.natAbs c.den

def raised (k : Nat) : Formula :=
  if k = 1 then .name else .power k

def termFormula (k : Nat) (c : Rat) : Formula :=
  if k = 0 then ratio c else if c = 1 then raised k else .product (ratio c) (raised k)

def leadFormula (k : Nat) (c : Rat) : Formula :=
  if c < 0 then .negative false (termFormula k c.abs) else termFormula k c.abs

def termPart (t : Int × Rat) : Formula × Bool :=
  (termFormula t.1.natAbs t.2.abs, decide (t.2 < 0))

/-- The text of a polynomial, as a formula. -/
def formula (p : Polynomial) : Formula :=
  match p.shownTerms with
  | [] => .number 0
  | t :: ts => (ts.map termPart).foldl addPart (leadFormula t.1.natAbs t.2)

theorem toString_natAbs {n : Int} (h : 0 ≤ n) : toString n.natAbs = toString n := by
  cases n with
  | ofNat n => rfl
  | negSucc n => exact absurd h (by omega)

/-- The formula of a rational has its text. -/
theorem text_ratio (hc : 0 ≤ c) : (ratio c).text x = Rational.text c := by
  unfold ratio Rational.text
  split <;> rw [Formula.text, toString_natAbs (Rat.num_nonneg.mpr hc)]

theorem value_ratio (hc : 0 ≤ c) : (ratio c).value q = c := by
  have hnum : ((c.num.natAbs : Nat) : Rat) = c.num := by
    rw [← Int.cast_natCast, Int.natAbs_of_nonneg (Rat.num_nonneg.mpr hc)]
  unfold ratio
  split
  next hden => rw [value, hnum, (Rat.den_eq_one_iff c).mp hden]
  next => rw [value, hnum, Rat.num_div_den]

theorem text_termFormula (hc : 0 ≤ c) : (termFormula k c).text x = termText x k c := by
  have hraised : (raised k).text x =
      if (k : Int) = 1 then x else x ++ "^" ++ toString (k : Int) := by
    unfold raised
    simp only [Nat.cast_eq_one]
    split <;> rfl
  unfold termFormula termText
  simp only [Nat.cast_eq_zero]
  split
  · exact text_ratio hc
  split
  · exact hraised
  · rw [Formula.text, text_ratio hc, hraised]
    rfl

theorem value_termFormula (hc : 0 ≤ c) : (termFormula k c).value q = c * q ^ k := by
  have hraised : (raised k).value q = q ^ k := by
    unfold raised
    split
    next hk => rw [hk, pow_one, value]
    next => rfl
  unfold termFormula
  split
  next hk => rw [value_ratio hc, hk, pow_zero, mul_one]
  split
  next hone => rw [hraised, hone, one_mul]
  next => rw [value, value_ratio hc, hraised]

/-- A term is a product without a sign before it. -/
theorem isSummand_termFormula (k : Nat) (c : Rat) : IsSummand (termFormula k c) := by
  unfold termFormula ratio raised
  split_ifs <;> exact ⟨rfl, rfl, rfl, rfl⟩

/-- A term can be read if neither its coefficient nor its power is too long. -/
theorem isReadable_termFormula (hk : Rational.isLong k = false) (hc : Rational.tooLong c = false) :
    (termFormula k c).isReadable = true := by
  obtain ⟨hnum, hden⟩ := Bool.or_eq_false_iff.mp hc
  have hratio : (ratio c).isReadable = true := by
    unfold ratio
    split <;> simp [isReadable, hnum, hden]
  have hraised : (raised k).isReadable = true := by
    unfold raised
    split <;> simp [isReadable, hk]
  unfold termFormula
  split_ifs
  · exact hratio
  · exact hraised
  · exact Bool.and_eq_true_iff.mpr ⟨hratio, hraised⟩

/-- The minus of a term at the beginning goes to what is raised only if there is no factor before
it. -/
theorem groups_leadFormula (h : ¬ (c = -1 ∧ 0 < k ∧ Even k)) :
    (leadFormula k c).groups 0 = true := by
  unfold leadFormula
  split
  next hneg =>
    have habs : c.abs = -c := if_neg (not_le.mpr hneg)
    have hodd : c.abs = 1 → k ≠ 0 → k % 2 = 1 := by
      intro hone hk
      rw [habs, neg_eq_iff_eq_neg] at hone
      by_contra heven
      exact h ⟨hone, Nat.pos_of_ne_zero hk, Nat.even_iff.mpr (by omega)⟩
    unfold termFormula ratio raised
    split_ifs with hk _ hone hk1 <;> simp_all [groups, hasSum]
  next => exact (isSummand_termFormula k c.abs).groups

theorem value_leadFormula (k : Nat) (c q : Rat) : (leadFormula k c).value q = c * q ^ k := by
  unfold leadFormula
  split
  next hneg =>
    rw [value, value_termFormula Rat.abs_nonneg, Rat.abs_of_nonpos (le_of_lt hneg), neg_mul,
      neg_neg]
  next hpos => rw [value_termFormula Rat.abs_nonneg, Rat.abs_of_nonneg (not_lt.mp hpos)]

/-- A minus at the beginning belongs to what is raised to a power, so it is lost if the power is
even and no coefficient stands between them. -/
theorem comes_leadFormula (hq : s.lookup? x = some (.rational q)) (hk : Rational.isLong k = false)
    (hc : Rational.tooLong c = false) :
    Comes run s ((leadFormula k c).chain x 0).whole
      (if c = -1 ∧ 0 < k ∧ Even k then q ^ k else c * q ^ k) := by
  split
  next h =>
    obtain ⟨rfl, hpos, heven⟩ := h
    have hne : k ≠ 1 := by
      rintro rfl
      exact absurd heven (by decide)
    have hlead : leadFormula k (-1) = .negative false (.power k) := by
      unfold leadFormula termFormula raised
      rw [if_pos (by decide), if_neg hpos.ne', if_pos (by decide), if_neg hne]
    rw [hlead]
    refine ((comes_var hq).minuses 1).binary (comes_numeral hk) ?_
    rw [Value.combine, Value.power, Value.powRational_natCast, pow_one, neg_one_mul, heven.neg_pow]
  next h =>
    have hread : (leadFormula k c).isReadable = true := by
      have hterm := isReadable_termFormula hk ((GaussRat.tooLong_abs c).trans hc)
      unfold leadFormula
      split <;> exact hterm
    have hcomes : Comes run s ((leadFormula k c).chain x 0).whole _ :=
      comes_chain hq hread (groups_leadFormula h)
    rwa [pow_zero, one_mul, value_leadFormula] at hcomes

end Terms

section Parts
variable {x : String} {t : Int × Rat} {ts : List (Int × Rat)}

theorem text_termFormula_abs (ht : 0 ≤ t.1) :
    (termFormula t.1.natAbs t.2.abs).text x = termText x t.1 t.2.abs := by
  rw [text_termFormula Rat.abs_nonneg, Int.natAbs_of_nonneg ht]

theorem text_termPart (ht : 0 ≤ t.1) :
    (if (termPart t).2 then "- " else "+ ") ++ (termPart t).1.text x =
      signedText false x t.1 t.2 := by
  rw [termPart, text_termFormula_abs ht, signedText]
  simp

/-- Terms with their signs add up to the value. -/
theorem partsValue_terms (hts : ∀ t ∈ ts, 0 ≤ t.1) (q : Rat) :
    partsValue q (ts.map termPart) = (ts.map (fun t => t.2 * q ^ t.1)).sum := by
  rw [partsValue, List.map_map]
  congr 1
  refine List.map_congr_left fun t ht => ?_
  have hpow : q ^ t.1 = q ^ t.1.natAbs := by
    rw [← zpow_natCast, Int.natAbs_of_nonneg (hts t ht)]
  rw [Function.comp_apply, termPart, value_termFormula Rat.abs_nonneg, hpow]
  by_cases hneg : t.2 < 0
  · rw [decide_eq_true hneg, if_pos rfl, Rat.abs_of_nonpos (le_of_lt hneg), neg_mul, neg_neg]
  · rw [decide_eq_false hneg, if_neg (by simp), Rat.abs_of_nonneg (not_lt.mp hneg)]

end Parts

section Whole
variable {p : Polynomial} {x : String}

/-- The text of a polynomial is that of a formula. -/
theorem text_formula (hpos : ∀ t ∈ p.terms, 0 ≤ t.1) : p.formula.text x = p.text x := by
  have hshown : ∀ t ∈ p.shownTerms, 0 ≤ t.1 :=
    fun t ht => hpos t ((mem_shownTerms p t).mp ht).1
  unfold formula Polynomial.text
  cases h : p.shownTerms with
  | nil => rfl
  | cons t ts =>
    rw [h] at hshown
    obtain ⟨ht, hts⟩ := List.forall_mem_cons.mp hshown
    have hlead : (leadFormula t.1.natAbs t.2).text x = signedText true x t.1 t.2 := by
      have htext := text_termFormula_abs (x := x) ht
      unfold leadFormula signedText
      by_cases hneg : t.2 < 0 <;> simp [hneg, Formula.text, htext]
    have hparts : (ts.map termPart).map
          (fun p => (if p.2 then "- " else "+ ") ++ p.1.text x) =
        ts.map (fun s => signedText false x s.1 s.2) := by
      rw [List.map_map]
      exact List.map_congr_left fun s hs => text_termPart (hts s hs)
    dsimp only
    rw [text_foldl, hlead, hparts]

/-- The coefficients after the first have their signs taken off. -/
theorem signsApart_formula (p : Polynomial) : p.formula.signsApart = true := by
  unfold formula
  cases p.shownTerms with
  | nil => rfl
  | cons t ts =>
    apply signsApart_foldl
    · exact List.forall_mem_map.mpr fun t _ => isSummand_termFormula t.1.natAbs t.2.abs
    · have hterm := isSummand_termFormula t.1.natAbs t.2.abs
      unfold leadFormula
      split <;> exact hterm.signs

/-- The terms that are shown make up the value. -/
theorem valueAt_eq_shown (p : Polynomial) (q : Rat) :
    p.valueAt q = (p.shownTerms.map (fun t => t.2 * q ^ t.1)).sum := by
  rw [shownTerms, ((Sorted.perm_sort _ _).map _).sum_eq, valueAt]
  induction p.terms with
  | nil => rfl
  | cons t ts ih =>
    by_cases hzero : t.2 = 0
    · simp [hzero, ih]
    · simp [hzero, ih]

/-- What the text is read as differs from the polynomial by the minus at its beginning only. -/
theorem comes_formula {s : Scope} {run : Scope → Expr → Except Error Value} {q : Rat}
    (hq : s.lookup? x = some (.rational q)) (hnodup : (powers p.terms).Nodup)
    (hpos : ∀ t ∈ p.terms, 0 ≤ t.1) (hlong : p.tooLong = false) :
    ((∀ k, 0 < k → Even k → ¬ p.Leads k (-1)) →
      Comes run s (p.formula.chain x 0).whole (p.valueAt q)) ∧
    (∀ k, 0 < k → Even k → p.Leads k (-1) →
      Comes run s (p.formula.chain x 0).whole (p.valueAt q + 2 * q ^ k)) := by
  have hterms : ∀ t ∈ p.shownTerms,
      0 ≤ t.1 ∧ Rational.isLong t.1.natAbs = false ∧ Rational.tooLong t.2 = false := by
    intro t ht
    have hshort := List.any_eq_false.mp hlong t ht
    simp only [Bool.or_eq_true, not_or, Bool.not_eq_true] at hshort
    exact ⟨hpos t ((mem_shownTerms p t).mp ht).1, hshort.2, hshort.1⟩
  rw [valueAt_eq_shown]
  cases h : p.shownTerms with
  | nil =>
    refine ⟨fun _ => ?_, fun k _ _ hk => ?_⟩
    · have hzero : Comes run s (.number (toString 0)) ((0 : Nat) : Rat) := comes_numeral rfl
      rw [formula, h, List.map_nil, List.sum_nil]
      exact_mod_cast hzero
    · obtain ⟨ts, hts⟩ := (leads_iff hnodup).mp hk
      rw [h] at hts
      cases hts
  | cons t ts =>
    rw [h] at hterms
    obtain ⟨⟨ht, hk, hc⟩, hts⟩ := List.forall_mem_cons.mp hterms
    have hformula : p.formula =
        (ts.map termPart).foldl addPart (leadFormula t.1.natAbs t.2) := by rw [formula, h]
    have hparts : ∀ p ∈ ts.map termPart, IsSummand p.1 ∧ p.1.isReadable = true := by
      refine List.forall_mem_map.mpr fun t ht => ⟨isSummand_termFormula _ _, ?_⟩
      exact isReadable_termFormula (hts t ht).2.1 ((GaussRat.tooLong_abs t.2).trans (hts t ht).2.2)
    have hfold : Comes run s _ _ := comes_foldl hq hparts (comes_leadFormula hq hk hc)
    rw [← hformula, partsValue_terms fun t ht => (hts t ht).1] at hfold
    have hpower (q : Rat) : q ^ t.1 = q ^ t.1.natAbs := by
      rw [← zpow_natCast, Int.natAbs_of_nonneg ht]
    rw [List.map_cons, List.sum_cons]
    refine ⟨fun hnone => ?_, fun k hpos heven hlead => ?_⟩
    · have hnot : ¬ (t.2 = -1 ∧ 0 < t.1.natAbs ∧ Even t.1.natAbs) := by
        rintro ⟨hone, hpos, heven⟩
        apply hnone _ hpos heven
        rw [leads_iff hnodup]
        exact ⟨ts, by rw [h, Int.natAbs_of_nonneg ht, ← hone]⟩
      rwa [if_neg hnot, ← hpower] at hfold
    · obtain ⟨ts', hts'⟩ := (leads_iff hnodup).mp hlead
      rw [h] at hts'
      cases hts'
      rw [Int.natAbs_natCast, if_pos ⟨rfl, hpos, heven⟩] at hfold
      convert hfold using 1
      rw [zpow_natCast]
      ring

end Whole

/-- The text of a polynomial can be read, and has the values of the polynomial unless it begins with
a minus before an even power. -/
theorem reads_back (p : Polynomial) (x : String) (hnodup : (p.terms.map Prod.fst).Nodup)
    (hpos : ∀ t ∈ p.terms, 0 ≤ t.1) (hlong : p.tooLong = false) (hx : IsBindable x) :
    ∃ t e, p.text? x = .ok t ∧ Session.read t = .ok (some (.expression e)) ∧
      ∀ (s : Scope) (q : Rat),
        ((∀ k, 0 < k → Even k → ¬ p.Leads k (-1)) →
          (s.bind x (.rational q)).eval e = .ok (.rational (p.valueAt q))) ∧
        (∀ k, 0 < k → Even k → p.Leads k (-1) →
          (s.bind x (.rational q)).eval e = .ok (.rational (p.valueAt q + 2 * q ^ k))) := by
  refine ⟨p.text x, p.formula.reading x, ?_, ?_, fun s q => ?_⟩
  · rw [text?, hlong]
    rfl
  · rw [← text_formula hpos]
    exact read_formula hx.isWritten (signsApart_formula p)
  · have hq : (s.bind x (.rational q)).lookup? x = some (.rational q) := Scope.lookup?_bind rfl s x
    obtain ⟨hkept, hlost⟩ := comes_formula hq hnodup hpos hlong
    exact ⟨fun h => (hkept h).2, fun k hk heven h => (hlost k hk heven h).2⟩

/-- At 3 the polynomial `-x^2 - 1` is -10, and its text is 8. -/
theorem reads_back_negative_square :
    let p := Polynomial.mk [(2, -1), (0, -1)]
    ((p.terms.map Prod.fst).Nodup ∧ (∀ t ∈ p.terms, 0 ≤ t.1) ∧ p.tooLong = false ∧
      IsBindable "x" ∧ p.Leads 2 (-1)) ∧
    p.valueAt 3 = -10 ∧
    ∃ t e, p.text? "x" = .ok t ∧ Session.read t = .ok (some (.expression e)) ∧
      (Scope.empty.bind "x" (.rational 3)).eval e = .ok (.rational 8) := by
  intro p
  have hnodup : (p.terms.map Prod.fst).Nodup := by decide
  have hpos : ∀ t ∈ p.terms, 0 ≤ t.1 := by decide
  have hlong : p.tooLong = false := by decide
  have hx : IsBindable "x" := by decide
  have hlead : p.Leads 2 (-1) := (leads_iff hnodup).mpr ⟨[(0, -1)], by decide⟩
  have hvalue : p.valueAt 3 = -10 := by norm_num [p, valueAt]
  obtain ⟨t, e, ht, he, hvalues⟩ := reads_back p "x" hnodup hpos hlong hx
  refine ⟨⟨hnodup, hpos, hlong, hx, hlead⟩, hvalue, t, e, ht, he, ?_⟩
  have heval := (hvalues .empty 3).2 2 (by decide) (by decide) hlead
  rw [hvalue] at heval
  exact heval.trans (by norm_num)

end Polynomial
end Reckoner
