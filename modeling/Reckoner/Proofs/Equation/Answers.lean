import Mathlib.Tactic.Linarith
import Reckoner.Proofs.Equation

open Polynomial

namespace Reckoner.Equation
open Outcome

def Answer.degree? : Answer → Option Int
  | .reduced _ _ n _ => some n
  | _ => none

def Answer.verdict : Answer → String
  | .reduced _ _ _ r => r.text
  | a => a.text

/-- The answer says of the equation `P = 0` what is true of it. -/
structure Answer.Faithful (P : ℚ[X]) (a : Answer) : Prop where
  degree : a.degree? = if 2 < P.natDegree then none else some (P.natDegree : Int)
  refused : a.text = "The polynomial degree is strictly greater than 2, I can't solve." ↔
    2 < P.natDegree
  all : a.verdict = "All real numbers are solutions" ↔ P = 0
  none : a.verdict = "No solution" ↔ P ≠ 0 ∧ P.natDegree = 0
  single : P.natDegree = 1 → ∃ q, a.verdict = "The solution is:\n" ++ Rational.text q ∧
    ∀ y, P.eval y = 0 ↔ y = q

theorem head_append {s t : String} {c : Char} (h : s.toList.head? = some c) :
    (s ++ t).toList.head? = some c := by
  rw [String.toList_append, List.head?_append, h, Option.some_or]

/-- The kinds of verdicts begin with different letters. -/
theorem Roots.head_text (r : Roots) : r.text.toList.head? = some (match r with
    | .all => 'A'
    | .none => 'N'
    | .single _ => 'T'
    | .real .. | .double .. | .complex .. => 'D') := by
  cases r with
  | all | none => rfl
  | single x => exact head_append rfl
  | real d x₁ x₂ =>
    exact head_append (head_append (head_append (head_append (head_append rfl))))
  | double d x => exact head_append (head_append (head_append rfl))
  | complex d z₁ z₂ =>
    exact head_append (head_append (head_append (head_append (head_append rfl))))

theorem Roots.text_eq_all_iff (r : Roots) :
    r.text = "All real numbers are solutions" ↔ r = .all := by
  refine ⟨fun h => ?_, fun h => h ▸ rfl⟩
  have hh := r.head_text
  rw [h] at hh
  cases r <;> simp at hh ⊢

theorem Roots.text_eq_none_iff (r : Roots) : r.text = "No solution" ↔ r = .none := by
  refine ⟨fun h => ?_, fun h => h ▸ rfl⟩
  have hh := r.head_text
  rw [h] at hh
  cases r <;> simp at hh ⊢

theorem reduced_text_ne_refusal (d : Polynomial) (x : String) (n : Int) (r : Roots) :
    (Answer.reduced d x n r).text ≠
      "The polynomial degree is strictly greater than 2, I can't solve." := by
  intro h
  have hh : (Answer.reduced d x n r).text.toList.head? = some 'R' :=
    head_append (head_append (head_append (head_append (head_append rfl))))
  rw [h] at hh
  simp at hh

theorem writable_eq_ok {q r : Rat} : writable q = .ok r ↔ Rational.tooLong q = false ∧ q = r := by
  unfold writable
  split <;> simp_all

theorem quotient_eq_ok {p q r : Rat} : quotient p q = .ok r ↔ q ≠ 0 ∧ p / q = r := by
  unfold quotient
  split <;> simp_all

section
variable {a b c : Rat} {r : Roots}

/-- A positive discriminant gives two roots, if its square root can be worked out and all can be
written. -/
theorem quadratic_of_pos (h : 0 < b * b - 4 * a * c) :
    quadratic a b c = .ok r ↔ Rational.tooLong (b * b - 4 * a * c) = false ∧ a ≠ 0 ∧
      ∃ s, root (b * b - 4 * a * c) = .ok s ∧ Rational.tooLong ((-b + s) / (2 * a)) = false ∧
        Rational.tooLong ((-b - s) / (2 * a)) = false ∧
        r = .real (b * b - 4 * a * c) ((-b + s) / (2 * a)) ((-b - s) / (2 * a)) := by
  have h2 : 2 * a ≠ 0 ↔ a ≠ 0 := by simp
  simp only [quadratic, bind_eq_ok, writable_eq_ok]
  constructor
  · rintro ⟨d, ⟨hd, rfl⟩, hr⟩
    rw [if_pos h] at hr
    simp only [bind_eq_ok, quotient_eq_ok, writable_eq_ok, h2] at hr
    obtain ⟨s, hs, x₁, ⟨ha, rfl⟩, x₂, ⟨-, rfl⟩, y₁, ⟨h₁, rfl⟩, y₂, ⟨h₂, rfl⟩, hr⟩ := hr
    exact ⟨hd, ha, s, hs, h₁, h₂, (Except.ok.inj hr).symm⟩
  · rintro ⟨hd, ha, s, hs, h₁, h₂, rfl⟩
    refine ⟨_, ⟨hd, rfl⟩, ?_⟩
    rw [if_pos h]
    simp only [bind_eq_ok, quotient_eq_ok, writable_eq_ok, h2]
    exact ⟨s, hs, _, ⟨ha, rfl⟩, _, ⟨ha, rfl⟩, _, ⟨h₁, rfl⟩, _, ⟨h₂, rfl⟩, rfl⟩

theorem quadratic_of_eq_zero (h : b * b - 4 * a * c = 0) :
    quadratic a b c = .ok r ↔ a ≠ 0 ∧ Rational.tooLong (-b / (2 * a)) = false ∧
      r = .double 0 (-b / (2 * a)) := by
  have h2 : 2 * a ≠ 0 ↔ a ≠ 0 := by simp
  have h0 : writable 0 = .ok 0 := rfl
  simp only [quadratic, h, h0, ok_bind, lt_irrefl, if_true, if_false, bind_eq_ok, quotient_eq_ok,
    writable_eq_ok, h2]
  constructor
  · rintro ⟨x, ⟨ha, rfl⟩, y, ⟨hx, rfl⟩, hr⟩
    exact ⟨ha, hx, (Except.ok.inj hr).symm⟩
  · rintro ⟨ha, hx, rfl⟩
    exact ⟨_, ⟨ha, rfl⟩, _, ⟨hx, rfl⟩, rfl⟩

/-- The roots for a negative discriminant have the root of its opposite in their imaginary parts. -/
theorem quadratic_of_neg (h : b * b - 4 * a * c < 0) :
    quadratic a b c = .ok r ↔ Rational.tooLong (b * b - 4 * a * c) = false ∧ a ≠ 0 ∧
      ∃ s, root (-(b * b - 4 * a * c)) = .ok s ∧ Rational.tooLong (-b / (2 * a)) = false ∧
        Rational.tooLong (s / (2 * a)) = false ∧
        r = .complex (b * b - 4 * a * c) ⟨-b / (2 * a), s / (2 * a)⟩
          ⟨-b / (2 * a), -(s / (2 * a))⟩ := by
  have h2 : 2 * a ≠ 0 ↔ a ≠ 0 := by simp
  simp only [quadratic, bind_eq_ok, writable_eq_ok]
  constructor
  · rintro ⟨d, ⟨hd, rfl⟩, hr⟩
    rw [if_neg h.not_gt, if_neg h.ne] at hr
    simp only [bind_eq_ok, quotient_eq_ok, writable_eq_ok, h2] at hr
    obtain ⟨x, ⟨ha, rfl⟩, s, hs, y, ⟨-, rfl⟩, re, ⟨hx, rfl⟩, im, ⟨hy, rfl⟩, hr⟩ := hr
    exact ⟨hd, ha, s, hs, hx, hy, (Except.ok.inj hr).symm⟩
  · rintro ⟨hd, ha, s, hs, hx, hy, rfl⟩
    refine ⟨_, ⟨hd, rfl⟩, ?_⟩
    rw [if_neg h.not_gt, if_neg h.ne]
    simp only [bind_eq_ok, quotient_eq_ok, writable_eq_ok, h2]
    exact ⟨_, ⟨ha, rfl⟩, s, hs, _, ⟨ha, rfl⟩, _, ⟨hx, rfl⟩, _, ⟨hy, rfl⟩, rfl⟩
end
/-- The roots of `a x² + b x + c` can be worked out and written. -/
def Workable (a b c : Rat) : Prop :=
  Rational.tooLong (b * b - 4 * a * c) = false ∧
    (0 < b * b - 4 * a * c → ∃ s, root (b * b - 4 * a * c) = .ok s ∧
      Rational.tooLong ((-b + s) / (2 * a)) = false ∧
      Rational.tooLong ((-b - s) / (2 * a)) = false) ∧
    (b * b - 4 * a * c = 0 → Rational.tooLong (-b / (2 * a)) = false) ∧
    (b * b - 4 * a * c < 0 → ∃ s, root (-(b * b - 4 * a * c)) = .ok s ∧
      Rational.tooLong (-b / (2 * a)) = false ∧ Rational.tooLong (s / (2 * a)) = false)

/-- Without a leading coefficient no roots are given. -/
theorem quadratic_ok_iff (a b c : Rat) :
    (∃ r, quadratic a b c = .ok r) ↔ a ≠ 0 ∧ Workable a b c := by
  rcases lt_trichotomy 0 (b * b - 4 * a * c) with h | h | h
  · simp only [quadratic_of_pos h]
    constructor
    · rintro ⟨r, hd, ha, s, hs, h₁, h₂, -⟩
      exact ⟨ha, hd, fun _ => ⟨s, hs, h₁, h₂⟩, fun h0 => absurd h0 h.ne',
        fun h0 => absurd h0 h.not_gt⟩
    · rintro ⟨ha, hd, hp, -, -⟩
      obtain ⟨s, hs, h₁, h₂⟩ := hp h
      exact ⟨_, hd, ha, s, hs, h₁, h₂, rfl⟩
  · simp only [quadratic_of_eq_zero h.symm]
    constructor
    · rintro ⟨r, ha, hx, -⟩
      exact ⟨ha, h ▸ rfl, fun h0 => absurd h h0.ne, fun _ => hx, fun h0 => absurd h.symm h0.ne⟩
    · rintro ⟨ha, -, -, hz, -⟩
      exact ⟨_, ha, hz h.symm, rfl⟩
  · simp only [quadratic_of_neg h]
    constructor
    · rintro ⟨r, hd, ha, s, hs, h₁, h₂, -⟩
      exact ⟨ha, hd, fun h0 => absurd h0 h.not_gt, fun h0 => absurd h0 h.ne,
        fun _ => ⟨s, hs, h₁, h₂⟩⟩
    · rintro ⟨ha, hd, -, -, hn⟩
      obtain ⟨s, hs, h₁, h₂⟩ := hn h
      exact ⟨_, hd, ha, s, hs, h₁, h₂, rfl⟩

/-- A quadratic equation is never said to hold always or never. -/
theorem quadratic_verdict {a b c : Rat} {r : Roots} (h : quadratic a b c = .ok r) :
    r ≠ .all ∧ r ≠ .none := by
  rcases lt_trichotomy 0 (b * b - 4 * a * c) with hd | hd | hd
  · obtain ⟨-, -, s, -, -, -, rfl⟩ := (quadratic_of_pos hd).mp h
    simp
  · obtain ⟨-, -, rfl⟩ := (quadratic_of_eq_zero hd.symm).mp h
    simp
  · obtain ⟨-, -, s, -, -, -, rfl⟩ := (quadratic_of_neg hd).mp h
    simp

/-- The numbers of an answer to `P = 0` can be written, and square roots worked out. -/
structure Writable (P : ℚ[X]) : Prop where
  coeffs : ∀ k, Rational.tooLong (P.coeff k) = false
  linear : P.natDegree = 1 → Rational.tooLong (-P.coeff 0 / P.coeff 1) = false
  quadratic : P.natDegree = 2 → Workable (P.coeff 2) (P.coeff 1) (P.coeff 0)

section
variable {d : Polynomial} {P : ℚ[X]} {x : String} {r : Roots}

theorem leading_ne_zero {n : Nat} (hn : P.natDegree = n + 1) : P.coeff (n + 1) ≠ 0 := by
  have h0 : P ≠ 0 := by
    rintro rfl
    simp at hn
  rw [← hn]
  exact leadingCoeff_ne_zero.mpr h0

/-- An answer that reports the degree of `P`, which is at most two, is right if its verdict is. -/
theorem faithful_of_verdict {n : Nat} (hn : P.natDegree = n) (h2 : n ≤ 2)
    (hall : r = .all ↔ P = 0) (hnone : r = .none ↔ P ≠ 0 ∧ n = 0)
    (hsingle : n = 1 → ∃ q, r = .single q ∧ ∀ y, P.eval y = 0 ↔ y = q) :
    (Answer.reduced d x n r).Faithful P := by
  refine ⟨?_, ?_, (Roots.text_eq_all_iff r).trans hall, ?_, ?_⟩
  · rw [hn, if_neg (by omega), Answer.degree?]
  · exact ⟨fun he => absurd he (reduced_text_ne_refusal d x n r), by omega⟩
  · rw [hn]
    exact (Roots.text_eq_none_iff r).trans hnone
  · intro h1
    obtain ⟨q, rfl, hq⟩ := hsingle (hn.symm.trans h1)
    exact ⟨q, rfl, hq⟩

theorem faithful_constant (hn : P.natDegree = 0) :
    (Answer.reduced d x (0 : Nat) (if P.coeff 0 = 0 then .all else .none)).Faithful P := by
  have hP : P = 0 ↔ P.coeff 0 = 0 := by
    constructor
    · intro he
      simp [he]
    · intro he
      rw [eq_C_of_natDegree_eq_zero hn, he, C_0]
  apply faithful_of_verdict hn (by omega) ?_ ?_ (by omega)
  all_goals
    simp only [ne_eq, hP]
    split <;> simp_all

/-- What is said of a linear equation is true of it. -/
theorem faithful_linear (hn : P.natDegree = 1) :
    (Answer.reduced d x (1 : Nat) (.single (-P.coeff 0 / P.coeff 1))).Faithful P := by
  have h1 : P.coeff 1 ≠ 0 := leading_ne_zero hn
  have hP : P ≠ 0 := by
    rintro rfl
    simp at hn
  apply faithful_of_verdict hn (by omega)
  · simp [hP]
  · simp
  · intro _
    refine ⟨_, rfl, fun y => ?_⟩
    have hy : P.eval y = P.coeff 1 * y + P.coeff 0 := by
      conv_lhs => rw [eq_X_add_C_of_natDegree_le_one hn.le]
      simp
    rw [hy, eq_div_iff h1]
    constructor <;> intro he <;> linarith

theorem faithful_quadratic (hn : P.natDegree = 2)
    (hr : quadratic (P.coeff 2) (P.coeff 1) (P.coeff 0) = .ok r) :
    (Answer.reduced d x (2 : Nat) r).Faithful P := by
  have hP : P ≠ 0 := by
    rintro rfl
    simp at hn
  obtain ⟨hall, hnone⟩ := quadratic_verdict hr
  apply faithful_of_verdict hn (by omega)
  · simp [hall, hP]
  · simp [hnone]
  · omega

/-- The coefficients of a polynomial decide on its roots. -/
theorem rootsOf_eq {m : Nat} (h : d.Represents P m) (n : Int) :
    rootsOf d n =
      if n = 0 then .ok (if P.coeff 0 = 0 then .all else .none)
      else if n = 1 then
        if P.coeff 1 = 0 then .ok .none
        else Roots.single <$> writable (-P.coeff 0 / P.coeff 1)
      else quadratic (P.coeff 2) (P.coeff 1) (P.coeff 0) := by
  have ha : d.coeff 2 = P.coeff 2 := h.coeff_eq 2
  have hb : d.coeff 1 = P.coeff 1 := h.coeff_eq 1
  have hc : d.coeff 0 = P.coeff 0 := h.coeff_eq 0
  simp only [rootsOf, ha, hb, hc, map_eq_pure_bind]

/-- Where the highest power remains, the roots that are given are the true ones, and they are given
when they can be written. -/
theorem rootsOf_faithful {n : Nat} (h : d.Represents P n) (hn : P.natDegree = n) (h2 : n ≤ 2)
    (hc : ∀ k, Rational.tooLong (P.coeff k) = false) :
    (∀ r, rootsOf d n = .ok r → (Answer.reduced d x n r).Faithful P) ∧
      ((∃ r, rootsOf d n = .ok r) ↔ Writable P) := by
  rw [rootsOf_eq h]
  match n, h2 with
  | 0, _ =>
    refine ⟨?_, fun _ => ⟨hc, by omega, by omega⟩, fun _ => ⟨_, rfl⟩⟩
    rintro r ⟨⟩
    exact faithful_constant hn
  | 1, _ =>
    have h1 : P.coeff 1 ≠ 0 := leading_ne_zero hn
    simp only [Nat.cast_one, one_ne_zero, if_true, if_false, h1, map_eq_ok, writable_eq_ok]
    refine ⟨?_, ?_, ?_⟩
    · rintro r ⟨q, ⟨-, rfl⟩, rfl⟩
      exact faithful_linear hn
    · rintro ⟨r, q, ⟨hq, rfl⟩, -⟩
      exact ⟨hc, fun _ => hq, by omega⟩
    · intro hw
      exact ⟨_, _, ⟨hw.linear hn, rfl⟩, rfl⟩
  | 2, _ =>
    have ha : P.coeff 2 ≠ 0 := leading_ne_zero hn
    refine ⟨fun r hr => faithful_quadratic hn hr, ?_⟩
    refine (quadratic_ok_iff _ _ _).trans ⟨?_, fun hw => ⟨ha, hw.quadratic hn⟩⟩
    rintro ⟨-, hw⟩
    exact ⟨hc, by omega, fun _ => hw⟩

end

section
variable {s : Scope} {x : String} {e l r : Expr}

theorem replaceCalls_polynomial (h : e.IsPolynomial x)
    (rule : String → Expr → Option (Except Error Expr)) : replaceCalls rule e = .ok e := by
  induction h with
  | number | var | pow => rfl
  | neg _ ih => simp [replaceCalls, ih]
  | add _ _ ihl ihr | sub _ _ ihl ihr | mul _ _ ihl ihr => simp [replaceCalls, ihl, ihr]

theorem firstVariable?_polynomial (h : e.IsPolynomial x) (hx : x ≠ "") :
    e.firstVariable? = if e.mentions x then some x else none := by
  induction h with
  | number => rfl
  | var | pow => simp [Expr.firstVariable?, Expr.mentions, hx]
  | neg _ ih => exact ih
  | @add l r _ _ ihl ihr | @sub l r _ _ ihl ihr | @mul l r _ _ ihl ihr =>
    simp only [Expr.firstVariable?, Expr.mentions, ihl, ihr]
    by_cases hl : l.mentions x = true
    · simp [hl]
    · simp [hl]

/-- The unknown is the variable that occurs. -/
theorem solve_eq_solveFor (hl : l.IsPolynomial x) (hr : r.IsPolynomial x) (hx : x ≠ "")
    (hm : l.mentions x = true ∨ r.mentions x = true) : solve s l r = solveFor s x l r := by
  have hu : unknown? l r = some x := by
    simp only [unknown?, firstVariable?_polynomial hl hx, firstVariable?_polynomial hr hx]
    cases hml : l.mentions x with
    | true => rfl
    | false => simpa [hml] using hm
  have hel : expand s l = .ok l := replaceCalls_polynomial hl _
  have her : expand s r = .ok r := replaceCalls_polynomial hr _
  simp only [solve, hel, her, ok_bind, hu]

theorem isLong_of_le_two {k : Nat} (h : k ≤ 2) : Rational.isLong k = false := by
  have hshort : ∀ k ≤ 2, Rational.isLong k = false := by decide
  exact hshort k h

/-- A degree up to two can always be written. -/
theorem isUnwritable_of_le_two {d : Polynomial} {P : ℚ[X]} {n : Nat} (h : d.Represents P n)
    (h2 : n ≤ 2) : isUnwritable d = d.tooLong := by
  rw [isUnwritable, h.degree_eq, Int.natAbs_natCast, isLong_of_le_two h2, Bool.or_false]

/-- The equation is brought to one side, and the highest power that is written decides. -/
theorem solveFor_eq (hl : l.IsPolynomial x) (hr : r.IsPolynomial x) (hrl : l.ReadableLiterals)
    (hrr : r.ReadableLiterals) :
    ∃ d : Polynomial,
      d.Represents (l.poly - r.poly) (max l.writtenDegree r.writtenDegree) ∧
      solveFor s x l r =
        if 2 < max l.writtenDegree r.writtenDegree then .ok .degreeTooHigh
        else if d.tooLong then .error .printedTooLong
        else Answer.reduced d x (max l.writtenDegree r.writtenDegree : Nat) <$>
          rootsOf d (max l.writtenDegree r.writtenDegree : Nat) := by
  obtain ⟨p, hp, hrep⟩ := Polynomial.ofExpr_represents (s := s) hl hrl
  obtain ⟨q, hq, hreq⟩ := Polynomial.ofExpr_represents (s := s) hr hrr
  have hd := hrep.sub hreq
  have h2 : (2 < ((max l.writtenDegree r.writtenDegree : Nat) : Int)) ↔
      2 < max l.writtenDegree r.writtenDegree := by omega
  refine ⟨p.sub q, hd, ?_⟩
  simp only [solveFor, hp, hq, ok_bind, hd.degree_eq, h2, map_eq_pure_bind]
  split
  · rfl
  next hle => rw [isUnwritable_of_le_two hd (by omega)]

/-- A literal that is too long leaves the equation without an answer. -/
theorem solveFor_error (hl : l.IsPolynomial x) (hr : r.IsPolynomial x)
    (h : ¬ (l.ReadableLiterals ∧ r.ReadableLiterals)) : ∃ err, solveFor s x l r = .error err := by
  by_cases hrl : l.ReadableLiterals
  · obtain ⟨p, hp, -⟩ := Polynomial.ofExpr_represents (s := s) hl hrl
    obtain ⟨err, he⟩ := Polynomial.ofExpr_error (s := s) hr (fun hrr => h ⟨hrl, hrr⟩)
    exact ⟨err, by simp [solveFor, hp, he]⟩
  · obtain ⟨err, he⟩ := Polynomial.ofExpr_error (s := s) hl hrl
    exact ⟨err, by simp [solveFor, he]⟩

/-- The refusal is right just where more than the second power remains. -/
theorem faithful_degreeTooHigh {P : ℚ[X]} : Answer.degreeTooHigh.Faithful P ↔ 2 < P.natDegree := by
  refine ⟨fun h => h.refused.mp rfl, fun h => ⟨?_, ?_, ?_, ?_, by omega⟩⟩
  · simp [Answer.degree?, h]
  · exact ⟨fun _ => h, fun _ => rfl⟩
  · refine ⟨fun he => absurd he (by decide), ?_⟩
    rintro rfl
    simp at h
  · exact ⟨fun he => absurd he (by decide), by omega⟩

/-- Up to the second power only coefficients can be too long. -/
theorem tooLong_iff_of_le_two {d : Polynomial} {P : ℚ[X]} {n : Nat} (h : d.Represents P n)
    (h2 : n ≤ 2) : d.tooLong = true ↔ ∃ k, Rational.tooLong (P.coeff k) = true := by
  rw [h.tooLong_iff]
  constructor
  · rintro ⟨k, hk, hl | hl⟩
    · exact ⟨k, hl⟩
    · have hkn : k ≤ n := (le_natDegree_of_ne_zero hk).trans h.natDegree_le
      simp [isLong_of_le_two (hkn.trans h2)] at hl
  · rintro ⟨k, hl⟩
    refine ⟨k, fun hk => ?_, .inl hl⟩
    rw [hk] at hl
    exact absurd hl (by decide)

/-- The answer that a polynomial with the highest written power `n` gets. -/
theorem settled_faithful_iff {d : Polynomial} {P : ℚ[X]} {n : Nat} (hd : d.Represents P n) :
    (∃ a, (if 2 < n then .ok .degreeTooHigh
        else if d.tooLong then .error .printedTooLong
        else Answer.reduced d x (n : Nat) <$> rootsOf d (n : Nat)) = .ok a ∧ a.Faithful P) ↔
      2 < P.natDegree ∨ n = P.natDegree ∧ Writable P := by
  have hle := hd.natDegree_le
  by_cases h2 : 2 < n
  · simp only [h2, if_true, Except.ok.injEq, exists_eq_left', faithful_degreeTooHigh]
    omega
  · have hlow : ¬ 2 < P.natDegree := by omega
    simp only [h2, if_false, hlow, false_or]
    by_cases hlong : d.tooLong = true
    · obtain ⟨k, hk⟩ := (tooLong_iff_of_le_two hd (by omega)).mp hlong
      refine ⟨by simp [hlong], ?_⟩
      rintro ⟨-, hw⟩
      simp [hw.coeffs k] at hk
    · have hc : ∀ k, Rational.tooLong (P.coeff k) = false := by
        simpa using (tooLong_iff_of_le_two hd (by omega)).not.mp hlong
      simp only [hlong, Bool.false_eq_true, if_false, map_eq_ok]
      constructor
      · rintro ⟨a, ⟨roots, hroots, rfl⟩, hf⟩
        have hn : (n : Int) = P.natDegree := by
          simpa [Answer.degree?, hlow] using hf.degree
        have hn : n = P.natDegree := by exact_mod_cast hn
        have hrf := rootsOf_faithful (x := x) hd hn.symm (by omega) hc
        exact ⟨hn, hrf.2.mp ⟨roots, hroots⟩⟩
      · rintro ⟨hn, hw⟩
        have hrf := rootsOf_faithful (x := x) hd hn.symm (by omega) hc
        obtain ⟨roots, hroots⟩ := hrf.2.mpr hw
        exact ⟨_, ⟨roots, hroots, rfl⟩, hrf.1 roots hroots⟩

/-- Where the unknown occurs, the highest power that is written decides on the answer. -/
theorem solveFor_faithful_iff (hl : l.IsPolynomial x) (hr : r.IsPolynomial x) :
    (∃ a, solveFor s x l r = .ok a ∧ a.Faithful (l.poly - r.poly)) ↔
      (l.ReadableLiterals ∧ r.ReadableLiterals) ∧
      (2 < (l.poly - r.poly).natDegree ∨
        max l.writtenDegree r.writtenDegree = (l.poly - r.poly).natDegree ∧
          Writable (l.poly - r.poly)) := by
  by_cases hread : l.ReadableLiterals ∧ r.ReadableLiterals
  · obtain ⟨d, hd, hs⟩ := solveFor_eq (s := s) hl hr hread.1 hread.2
    simp only [hs, hread, and_self, true_and]
    exact settled_faithful_iff hd
  · obtain ⟨err, he⟩ := solveFor_error (s := s) hl hr hread
    simp [he, hread]

/-- Where the variable does not occur, what is left is a constant. -/
theorem poly_of_not_mentions (h : e.IsPolynomial x) (hm : e.mentions x = false) :
    ∃ c, e.poly = C c := by
  induction h with
  | number => exact ⟨_, rfl⟩
  | var | pow => simp [Expr.mentions] at hm
  | neg _ ih =>
    obtain ⟨c, hc⟩ := ih hm
    exact ⟨-c, by simp [Expr.poly, hc]⟩
  | add _ _ ihl ihr | sub _ _ ihl ihr | mul _ _ ihl ihr =>
    simp only [Expr.mentions, Bool.or_eq_false_iff] at hm
    obtain ⟨a, ha⟩ := ihl hm.1
    obtain ⟨b, hb⟩ := ihr hm.2
    simp only [Expr.poly, ha, hb, ← C_add, ← C_sub, ← C_mul]
    exact ⟨_, rfl⟩

/-- Without an unknown no degree is reported. -/
theorem not_faithful_of_constant {a : Answer} (hl : l.IsPolynomial x) (hr : r.IsPolynomial x)
    (hx : x ≠ "") (hml : l.mentions x = false) (hmr : r.mentions x = false)
    (ha : solve s l r = .ok a) : ¬ a.Faithful (l.poly - r.poly) := by
  have hu : unknown? l r = none := by
    simp [unknown?, firstVariable?_polynomial hl hx, firstVariable?_polynomial hr hx, hml, hmr]
  have hel : expand s l = .ok l := replaceCalls_polynomial hl _
  have her : expand s r = .ok r := replaceCalls_polynomial hr _
  simp only [solve, hel, her, ok_bind, hu, compare, bind_eq_ok] at ha
  obtain ⟨v, -, w, -, ha⟩ := ha
  obtain ⟨b, hb⟩ := poly_of_not_mentions hl hml
  obtain ⟨c, hc⟩ := poly_of_not_mentions hr hmr
  intro hf
  have hd := hf.degree
  rw [hb, hc, ← C_sub, natDegree_C] at hd
  obtain rfl := Except.ok.inj ha
  split at hd <;> simp [Answer.degree?] at hd

/-- The answer is right exactly when the unknown occurs, the literals can be read and either a power
above the second remains, or the highest power that is written remains and the numbers can be
written. Where that power has cancelled, the answer is wrong or there is none. -/
theorem solve_faithful_iff (s : Scope) (hx : x ≠ "") (hl : l.IsPolynomial x)
    (hr : r.IsPolynomial x) :
    (∃ a, solve s l r = .ok a ∧ a.Faithful (l.poly - r.poly)) ↔
      (l.mentions x = true ∨ r.mentions x = true) ∧
      (l.ReadableLiterals ∧ r.ReadableLiterals) ∧
      (2 < (l.poly - r.poly).natDegree ∨
        max l.writtenDegree r.writtenDegree = (l.poly - r.poly).natDegree ∧
          Writable (l.poly - r.poly)) := by
  by_cases hm : l.mentions x = true ∨ r.mentions x = true
  · rw [solve_eq_solveFor hl hr hx hm]
    simp only [hm, true_and]
    exact solveFor_faithful_iff hl hr
  · obtain ⟨hml, hmr⟩ : l.mentions x = false ∧ r.mentions x = false := by simpa using hm
    constructor
    · rintro ⟨a, ha, hf⟩
      exact absurd hf (not_faithful_of_constant hl hr hx hml hmr ha)
    · rintro ⟨h, -⟩
      exact absurd h hm

/-- In `x - x = 0` the first power cancels, so no right answer is given. -/
theorem solve_cancelled :
    ("x" ≠ "" ∧ (Expr.binary .sub (.var "x") (.var "x")).IsPolynomial "x" ∧
        (Expr.number "0").IsPolynomial "x") ∧
      ¬ ∃ a, solve Scope.empty (.binary .sub (.var "x") (.var "x")) (.number "0") = .ok a ∧
        a.Faithful ((Expr.binary .sub (.var "x") (.var "x")).poly - (Expr.number "0").poly) := by
  have hx : "x" ≠ "" := by decide
  have hl : (Expr.binary .sub (.var "x") (.var "x")).IsPolynomial "x" := .sub .var .var
  have hr : (Expr.number "0").IsPolynomial "x" :=
    .number ⟨by decide, List.all_eq_true.mp rfl⟩
  refine ⟨⟨hx, hl, hr⟩, ?_⟩
  rw [solve_faithful_iff Scope.empty hx hl hr]
  have hp : (Expr.binary .sub (.var "x") (.var "x")).poly - (Expr.number "0").poly = 0 := by
    have h0 : Numeral.literalValue "0" = 0 := by decide
    simp [Expr.poly, h0]
  rintro ⟨-, -, h | ⟨h, -⟩⟩
  · simp [hp] at h
  · simp [hp, Expr.writtenDegree] at h

end

end Reckoner.Equation
