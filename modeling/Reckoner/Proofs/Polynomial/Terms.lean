import Mathlib.Data.Int.Order.Basic
import Mathlib.Data.List.Nodup
import Mathlib.Order.Bounds.Basic
import Mathlib.Tactic.Ring
import Mathlib.Tactic.Tauto
import Reckoner.Polynomial

namespace Reckoner.Polynomial
variable {p q : Polynomial}

def powers (ts : List (Int × Rat)) : List Int :=
  ts.map Prod.fst

theorem mem_powers_bump (j k : Int) (c : Rat) (ts : List (Int × Rat)) :
    j ∈ powers (bump k c ts) ↔ j = k ∨ j ∈ powers ts := by
  induction ts with
  | nil => simp [bump, powers]
  | cons t ts ih =>
    simp only [powers, bump, List.map_cons, List.mem_cons] at ih ⊢
    split
    · rename_i hk
      simp only [List.map_cons, List.mem_cons, hk]
      tauto
    · simp only [List.map_cons, List.mem_cons, ih]
      tauto

/-- Each power occurs once, however terms are added. -/
theorem nodup_powers_bump (k : Int) (c : Rat) {ts : List (Int × Rat)} (h : (powers ts).Nodup) :
    (powers (bump k c ts)).Nodup := by
  induction ts with
  | nil => simp [bump, powers]
  | cons t ts ih =>
    obtain ⟨hn, ht⟩ := List.nodup_cons.mp h
    simp only [bump]
    split
    · exact List.nodup_cons.mpr ⟨hn, ht⟩
    · rename_i hk
      refine List.nodup_cons.mpr ⟨?_, ih ht⟩
      intro hm
      rcases (mem_powers_bump t.1 k c ts).mp hm with he | hm
      · exact hk he
      · exact hn hm

theorem mem_powers_foldl_bump (f : Int × Rat → Int × Rat) (j : Int) (qs ts : List (Int × Rat)) :
    j ∈ powers (qs.foldl (fun ts t => bump (f t).1 (f t).2 ts) ts) ↔
      j ∈ powers ts ∨ j ∈ powers (qs.map f) := by
  induction qs generalizing ts with
  | nil => simp [powers]
  | cons q qs ih =>
    rw [List.foldl_cons, ih, mem_powers_bump]
    simp only [powers, List.map_cons, List.mem_cons]
    tauto

theorem nodup_powers_foldl_bump (f : Int × Rat → Int × Rat) (qs : List (Int × Rat))
    {ts : List (Int × Rat)} (h : (powers ts).Nodup) :
    (powers (qs.foldl (fun ts t => bump (f t).1 (f t).2 ts) ts)).Nodup := by
  induction qs generalizing ts with
  | nil => exact h
  | cons q qs ih => exact ih (nodup_powers_bump _ _ h)

theorem lookup_cons_eq (j k : Int) (c : Rat) (ts : List (Int × Rat)) :
    (((k, c) :: ts).lookup j).getD 0 = if j = k then c else (ts.lookup j).getD 0 := by
  rw [List.lookup_cons]
  by_cases h : j = k
  · simp [h]
  · have hb : (j == k) = false := beq_eq_false_iff_ne.mpr h
    simp [hb, h]

theorem lookup_of_notMem {j : Int} {ts : List (Int × Rat)} (h : j ∉ powers ts) :
    ts.lookup j = none := by
  rw [List.lookup_eq_none_iff]
  intro t ht
  have hne : j ≠ t.1 := by
    intro he
    exact h (he ▸ List.mem_map_of_mem ht)
  simpa using hne

/-- Only the coefficient of the power that is added changes. -/
theorem lookup_bump (j k : Int) (c : Rat) (ts : List (Int × Rat)) :
    ((bump k c ts).lookup j).getD 0 = (ts.lookup j).getD 0 + if j = k then c else 0 := by
  induction ts with
  | nil =>
    rw [bump, lookup_cons_eq]
    simp
  | cons t ts ih =>
    obtain ⟨i, d⟩ := t
    rw [bump, lookup_cons_eq]
    split
    · rename_i hk
      subst hk
      rw [lookup_cons_eq]
      split <;> simp
    · rename_i hk
      rw [lookup_cons_eq, ih]
      by_cases hj : j = i
      · subst hj
        simp [hk]
      · simp [hj]

theorem lookup_foldl_bump (j : Int) {qs : List (Int × Rat)} (h : (powers qs).Nodup)
    (ts : List (Int × Rat)) :
    ((qs.foldl (fun ts t => bump t.1 t.2 ts) ts).lookup j).getD 0 =
      (ts.lookup j).getD 0 + (qs.lookup j).getD 0 := by
  induction qs generalizing ts with
  | nil => simp
  | cons q qs ih =>
    obtain ⟨hq, hqs⟩ := List.nodup_cons.mp h
    obtain ⟨k, c⟩ := q
    rw [List.foldl_cons, ih hqs, lookup_bump, lookup_cons_eq]
    by_cases hj : j = k
    · subst hj
      rw [lookup_of_notMem hq]
      simp
    · simp [hj]

theorem mem_powers_add (k : Int) :
    k ∈ powers (p.add q).terms ↔ k ∈ powers p.terms ∨ k ∈ powers q.terms := by
  have h := mem_powers_foldl_bump id k q.terms p.terms
  rwa [List.map_id] at h

/-- The coefficients of a sum are the sums of coefficients. -/
theorem coeff_add_eq (hq : (powers q.terms).Nodup) (k : Int) :
    (p.add q).coeff k = p.coeff k + q.coeff k :=
  lookup_foldl_bump k hq p.terms

theorem coeff_neg_eq (q : Polynomial) (k : Int) : q.neg.coeff k = -q.coeff k := by
  obtain ⟨ts⟩ := q
  simp only [coeff, neg]
  induction ts with
  | nil => simp
  | cons t ts ih =>
    rw [List.map_cons, lookup_cons_eq, lookup_cons_eq, ih]
    split <;> rfl

theorem powers_neg (q : Polynomial) : powers q.neg.terms = powers q.terms := by
  simp [neg, powers, Function.comp_def]

theorem coeff_sub_eq (hq : (powers q.terms).Nodup) (k : Int) :
    (p.sub q).coeff k = p.coeff k - q.coeff k := by
  have hneg : (powers q.neg.terms).Nodup := by rwa [powers_neg]
  rw [sub, coeff_add_eq hneg, coeff_neg_eq, sub_eq_add_neg]

theorem mem_powers_sub (k : Int) :
    k ∈ powers (p.sub q).terms ↔ k ∈ powers p.terms ∨ k ∈ powers q.terms := by
  rw [sub, mem_powers_add, powers_neg]

theorem isGreatest_foldl_max (ts : List (Int × Rat)) (a : Int) :
    IsGreatest {k | k = a ∨ k ∈ powers ts} (ts.foldl (fun d s => max d s.1) a) := by
  induction ts generalizing a with
  | nil => simp [powers, IsGreatest]
  | cons t ts ih =>
    obtain ⟨hmem, hle⟩ := ih (max a t.1)
    have hmax : max a t.1 ≤ ts.foldl (fun d s => max d s.1) (max a t.1) := hle (.inl rfl)
    constructor
    · rcases hmem with hm | hm
      · rcases max_choice a t.1 with hc | hc
        · exact .inl (hm.trans hc)
        · exact .inr (List.mem_cons.mpr (.inl (hm.trans hc)))
      · exact .inr (List.mem_cons_of_mem _ hm)
    · rintro k (rfl | hk)
      · exact (le_max_left _ _).trans hmax
      · rcases List.mem_cons.mp hk with rfl | hk
        · exact (le_max_right _ _).trans hmax
        · exact hle (.inr hk)

/-- The degree is the largest power that occurs, also where its coefficient has come to zero. -/
theorem isGreatest_degree (h : p.terms ≠ []) :
    IsGreatest {k | k ∈ powers p.terms} p.degree := by
  unfold degree
  split
  · rename_i he
    exact absurd he h
  · rename_i t ts he
    have hset : {k | k ∈ powers p.terms} = {k | k = t.1 ∨ k ∈ powers ts} := by
      ext k
      simp [he, powers]
    rw [hset]
    exact isGreatest_foldl_max ts t.1

/-- A term is a power that occurs, with its coefficient. -/
theorem mem_terms_iff (h : (powers p.terms).Nodup) (t : Int × Rat) :
    t ∈ p.terms ↔ t.1 ∈ powers p.terms ∧ p.coeff t.1 = t.2 := by
  obtain ⟨ts⟩ := p
  obtain ⟨j, d⟩ := t
  simp only [coeff] at h ⊢
  induction ts with
  | nil => simp [powers]
  | cons u ts ih =>
    obtain ⟨hu, hts⟩ := List.nodup_cons.mp h
    obtain ⟨k, c⟩ := u
    have hpowers : j ∈ powers ((k, c) :: ts) ↔ j = k ∨ j ∈ powers ts := List.mem_cons
    rw [lookup_cons_eq, List.mem_cons, ih hts, hpowers]
    by_cases hj : j = k
    · subst hj
      have hnot : j ∉ powers ts := hu
      simp [hnot, eq_comm]
    · simp [hj]

theorem mem_shownTerms (p : Polynomial) (t : Int × Rat) :
    t ∈ p.shownTerms ↔ t ∈ p.terms ∧ t.2 ≠ 0 := by
  rw [shownTerms, (Sorted.perm_sort _ _).mem_iff, List.mem_filter]
  simp

end Reckoner.Polynomial
