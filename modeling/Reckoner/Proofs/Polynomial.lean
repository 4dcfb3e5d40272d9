import Mathlib.Algebra.Polynomial.Degree.Lemmas
import Mathlib.Tactic.Ring
import Reckoner.Proofs.Polynomial.Terms

open Polynomial

namespace Reckoner.Polynomial

/-- The polynomial of some terms with powers that are not negative. -/
noncomputable def meaning (ts : List (Int × Rat)) : ℚ[X] :=
  (ts.map (fun t => C t.2 * X ^ t.1.toNat)).sum

@[simp]
theorem meaning_nil : meaning [] = 0 := rfl

@[simp]
theorem meaning_cons (t : Int × Rat) (ts : List (Int × Rat)) :
    meaning (t :: ts) = C t.2 * X ^ t.1.toNat + meaning ts := by
  simp [meaning]

/-- A term is added to what is there, whether its power occurs already or not. -/
theorem meaning_bump (k : Int) (c : Rat) (ts : List (Int × Rat)) :
    meaning (bump k c ts) = meaning ts + C c * X ^ k.toNat := by
  induction ts with
  | nil => simp [bump]
  | cons t ts ih =>
    simp only [bump]
    split
    · rename_i hk
      simp only [meaning_cons, hk, C_add]
      ring
    · simp only [meaning_cons, ih]
      ring

/-- Adding terms one by one adds what they stand for. -/
theorem meaning_foldl_bump (f : Int × Rat → Int × Rat) (qs ts : List (Int × Rat)) :
    meaning (qs.foldl (fun ts t => bump (f t).1 (f t).2 ts) ts) =
      meaning ts + meaning (qs.map f) := by
  induction qs generalizing ts with
  | nil => simp
  | cons q qs ih =>
    simp only [List.foldl_cons, List.map_cons, meaning_cons, ih, meaning_bump]
    ring

theorem meaning_neg (ts : List (Int × Rat)) :
    meaning (ts.map (fun t => (t.1, -t.2))) = -meaning ts := by
  induction ts with
  | nil => simp
  | cons t ts ih =>
    simp only [List.map_cons, meaning_cons, ih, C_neg]
    ring

/-- The terms of `p` stand for `P`, each power once. The highest power among them is `n`, though its
coefficient may have come to zero. -/
structure Represents (p : Polynomial) (P : ℚ[X]) (n : Nat) : Prop where
  nodup : (powers p.terms).Nodup
  nonneg : ∀ k ∈ powers p.terms, 0 ≤ k
  meaning_eq : meaning p.terms = P
  top : (n : Int) ∈ powers p.terms
  le_top : ∀ k ∈ powers p.terms, k ≤ n

theorem represents_constant (c : Rat) : Represents (constant c) (C c) 0 := by
  constructor <;> simp [constant, powers]

theorem represents_monomial (n : Nat) : Represents (monomial n) (X ^ n) n := by
  constructor <;> simp [monomial, powers]

section
variable {p q : Polynomial} {P Q : ℚ[X]} {m n : Nat}

theorem Represents.neg (h : Represents p P n) : Represents p.neg (-P) n := by
  refine ⟨?_, ?_, ?_, ?_, ?_⟩
  · rw [powers_neg]; exact h.nodup
  · rw [powers_neg]; exact h.nonneg
  · rw [Polynomial.neg, meaning_neg, h.meaning_eq]
  · rw [powers_neg]; exact h.top
  · rw [powers_neg]; exact h.le_top

/-- The highest power of a sum is the larger of the two, whatever cancels. -/
theorem Represents.add (hp : Represents p P m) (hq : Represents q Q n) :
    Represents (p.add q) (P + Q) (max m n) := by
  refine ⟨nodup_powers_foldl_bump id q.terms hp.nodup, ?_, ?_, ?_, ?_⟩
  · intro k h
    rcases (mem_powers_add k).mp h with h | h
    · exact hp.nonneg k h
    · exact hq.nonneg k h
  · have hm := meaning_foldl_bump id q.terms p.terms
    rw [List.map_id, hp.meaning_eq, hq.meaning_eq] at hm
    exact hm
  · rcases max_choice m n with he | he <;> rw [he]
    · exact (mem_powers_add _).mpr (.inl hp.top)
    · exact (mem_powers_add _).mpr (.inr hq.top)
  · intro k h
    rcases (mem_powers_add k).mp h with h | h
    · have := hp.le_top k h
      omega
    · have := hq.le_top k h
      omega

theorem Represents.sub (hp : Represents p P m) (hq : Represents q Q n) :
    Represents (p.sub q) (P - Q) (max m n) := by
  rw [sub_eq_add_neg]
  exact hp.add hq.neg

def mulInto (qs ps ts : List (Int × Rat)) : List (Int × Rat) :=
  ps.foldl (fun ts s => qs.foldl (fun ts t => bump (s.1 + t.1) (s.2 * t.2) ts) ts) ts

theorem meaning_shift (k : Nat) (c : Rat) {qs : List (Int × Rat)}
    (h : ∀ j ∈ powers qs, 0 ≤ j) :
    meaning (qs.map (fun t => ((k : Int) + t.1, c * t.2))) = C c * X ^ k * meaning qs := by
  induction qs with
  | nil => simp
  | cons q qs ih =>
    have hq : 0 ≤ q.1 := h q.1 List.mem_cons_self
    have hn : ((k : Int) + q.1).toNat = k + q.1.toNat := by omega
    simp only [List.map_cons, meaning_cons, hn, C_mul, pow_add,
      ih (fun j hj => h j (List.mem_cons_of_mem _ hj))]
    ring

/-- The terms of a product are all the products of terms. -/
theorem meaning_mulInto {qs : List (Int × Rat)} (hq : ∀ j ∈ powers qs, 0 ≤ j)
    {ps : List (Int × Rat)} (hp : ∀ j ∈ powers ps, 0 ≤ j) (ts : List (Int × Rat)) :
    meaning (mulInto qs ps ts) = meaning ts + meaning ps * meaning qs := by
  induction ps generalizing ts with
  | nil => simp [mulInto]
  | cons s ps ih =>
    obtain ⟨k, hk⟩ := Int.eq_ofNat_of_zero_le (hp s.1 List.mem_cons_self)
    have hs := meaning_foldl_bump (fun t => (s.1 + t.1, s.2 * t.2)) qs ts
    rw [hk, meaning_shift k s.2 hq] at hs
    have hr := ih (fun j hj => hp j (List.mem_cons_of_mem _ hj))
      (qs.foldl (fun ts t => bump (s.1 + t.1) (s.2 * t.2) ts) ts)
    simp only [mulInto, List.foldl_cons] at hr ⊢
    rw [hr, hk, hs, meaning_cons, hk]
    simp only [Int.toNat_natCast]
    ring

theorem mem_powers_mulInto (j : Int) (qs ps ts : List (Int × Rat)) :
    j ∈ powers (mulInto qs ps ts) ↔
      j ∈ powers ts ∨ ∃ a ∈ powers ps, ∃ b ∈ powers qs, j = a + b := by
  induction ps generalizing ts with
  | nil => simp [mulInto, powers]
  | cons s ps ih =>
    have hs := mem_powers_foldl_bump (fun t => (s.1 + t.1, s.2 * t.2)) j qs ts
    have hm : j ∈ powers (qs.map (fun t => (s.1 + t.1, s.2 * t.2))) ↔
        ∃ b ∈ powers qs, j = s.1 + b := by
      simp [powers, eq_comm]
    have hr := ih (qs.foldl (fun ts t => bump (s.1 + t.1) (s.2 * t.2) ts) ts)
    simp only [mulInto, List.foldl_cons] at hr ⊢
    rw [hr, hs, hm, or_assoc]
    simp [powers]

theorem nodup_powers_mulInto (qs ps : List (Int × Rat)) {ts : List (Int × Rat)}
    (h : (powers ts).Nodup) : (powers (mulInto qs ps ts)).Nodup := by
  induction ps generalizing ts with
  | nil => exact h
  | cons s ps ih =>
    exact ih (nodup_powers_foldl_bump (fun t => (s.1 + t.1, s.2 * t.2)) qs h)

/-- The highest powers of factors add up. -/
theorem Represents.mul (hp : Represents p P m) (hq : Represents q Q n) :
    Represents (p.mul q) (P * Q) (m + n) := by
  have hk (j : Int) : j ∈ powers (p.mul q).terms ↔
      ∃ a ∈ powers p.terms, ∃ b ∈ powers q.terms, j = a + b := by
    refine (mem_powers_mulInto j q.terms p.terms []).trans ?_
    simp [powers]
  refine ⟨nodup_powers_mulInto q.terms p.terms List.nodup_nil, ?_, ?_, ?_, ?_⟩
  · intro k h
    obtain ⟨a, ha, b, hb, rfl⟩ := (hk k).mp h
    exact add_nonneg (hp.nonneg a ha) (hq.nonneg b hb)
  · have hm := meaning_mulInto hq.nonneg hp.nonneg []
    rw [meaning_nil, zero_add, hp.meaning_eq, hq.meaning_eq] at hm
    exact hm
  · exact (hk _).mpr ⟨m, hp.top, n, hq.top, by simp⟩
  · intro k h
    obtain ⟨a, ha, b, hb, rfl⟩ := (hk k).mp h
    have := hp.le_top a ha
    have := hq.le_top b hb
    omega

/-- A power that does not stand in the list has the coefficient zero. -/
theorem coeff_meaning_of_notMem {ts : List (Int × Rat)} (hs : ∀ j ∈ powers ts, 0 ≤ j) {k : Nat}
    (hk : (k : Int) ∉ powers ts) : (meaning ts).coeff k = 0 := by
  induction ts with
  | nil => simp
  | cons t ts ih =>
    obtain ⟨j, hj⟩ := Int.eq_ofNat_of_zero_le (hs t.1 List.mem_cons_self)
    simp only [powers, List.map_cons, List.mem_cons, not_or] at hk
    have hne : k ≠ j := fun he => hk.1 (by rw [hj, he])
    have hr := ih (fun i hi => hs i (List.mem_cons_of_mem _ hi)) hk.2
    rw [meaning_cons, hj, coeff_add, coeff_C_mul_X_pow, Int.toNat_natCast, if_neg hne, hr, add_zero]

theorem coeff_meaning {ts : List (Int × Rat)} (hs : ∀ j ∈ powers ts, 0 ≤ j)
    (hn : (powers ts).Nodup) (k : Nat) :
    (meaning ts).coeff k = (ts.lookup (k : Int)).getD 0 := by
  induction ts with
  | nil => simp
  | cons t ts ih =>
    obtain ⟨j, hj⟩ := Int.eq_ofNat_of_zero_le (hs t.1 List.mem_cons_self)
    have hs' : ∀ i ∈ powers ts, 0 ≤ i := fun i hi => hs i (List.mem_cons_of_mem _ hi)
    obtain ⟨hm, hn'⟩ := List.nodup_cons.mp hn
    obtain ⟨i, c⟩ := t
    dsimp only at hj hm
    subst hj
    rw [meaning_cons, coeff_add, coeff_C_mul_X_pow, Int.toNat_natCast, lookup_cons_eq]
    by_cases hk : k = j
    · subst hk
      rw [coeff_meaning_of_notMem hs' hm]
      simp
    · simp [hk, ih hs' hn']

/-- Coefficients are found by their powers. -/
theorem Represents.coeff_eq (h : Represents p P n) (k : Nat) : p.coeff k = P.coeff k := by
  rw [← h.meaning_eq, coeff_meaning h.nonneg h.nodup, Polynomial.coeff]

theorem Represents.degree_eq (h : Represents p P n) : p.degree = n := by
  have hterms : p.terms ≠ [] := by
    intro he
    have htop := h.top
    simp [he, powers] at htop
  exact (isGreatest_degree hterms).unique ⟨h.top, h.le_top⟩

/-- The degree may be less than the highest power that is kept, where terms have cancelled. -/
theorem Represents.natDegree_le (h : Represents p P n) : P.natDegree ≤ n := by
  rw [natDegree_le_iff_coeff_eq_zero]
  intro k hk
  rw [← h.meaning_eq]
  apply coeff_meaning_of_notMem h.nonneg
  intro hm
  have := h.le_top k hm
  omega

/-- The terms are the powers with their coefficients. -/
theorem Represents.mem_terms (h : Represents p P n) {t : Int × Rat} (ht : t ∈ p.terms) :
    ∃ k : Nat, t = ((k : Int), P.coeff k) := by
  obtain ⟨k, hk⟩ := Int.eq_ofNat_of_zero_le (h.nonneg t.1 (List.mem_map_of_mem ht))
  refine ⟨k, Prod.ext hk ?_⟩
  rw [← h.coeff_eq, ← hk]
  exact ((mem_terms_iff h.nodup t).mp ht).2.symm

theorem Represents.coeff_mem (h : Represents p P n) {k : Nat} (hk : P.coeff k ≠ 0) :
    ((k : Int), P.coeff k) ∈ p.terms := by
  have hm : (k : Int) ∈ powers p.terms := by
    by_contra hm
    exact hk (by rw [← h.meaning_eq]; exact coeff_meaning_of_notMem h.nonneg hm)
  exact (mem_terms_iff h.nodup _).mpr ⟨hm, h.coeff_eq k⟩

/-- Only the coefficients and the powers that are shown can be too long. -/
theorem Represents.tooLong_iff (h : Represents p P n) :
    p.tooLong = true ↔
      ∃ k, P.coeff k ≠ 0 ∧ (Rational.tooLong (P.coeff k) = true ∨ Rational.isLong k = true) := by
  rw [Polynomial.tooLong, List.any_eq_true]
  constructor
  · rintro ⟨t, ht, hl⟩
    obtain ⟨ht, h0⟩ := (mem_shownTerms p t).mp ht
    obtain ⟨k, rfl⟩ := h.mem_terms ht
    exact ⟨k, h0, by simpa using hl⟩
  · rintro ⟨k, h0, hl⟩
    exact ⟨_, (mem_shownTerms p _).mpr ⟨h.coeff_mem h0, h0⟩, by simpa using hl⟩

end

end Reckoner.Polynomial
