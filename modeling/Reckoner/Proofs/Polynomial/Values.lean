import Mathlib
import Reckoner.Proofs.Approximate
import Reckoner.Proofs.Assignment
import Reckoner.Proofs.Computation
import Reckoner.Proofs.Equation

open Polynomial

namespace Reckoner
open Numeral Outcome Eval

namespace Numeral
open Text

/-- A text that spells an integer, without a point and with few enough digits to be read. -/
structure IsInteger (t : String) : Prop where
  no_point : '.' ∉ t.toList
  spells : ∃ n, integer? t = some n ∧ n.digits.length ≤ 4300

theorem isDigit_of_takeDigits {cs rest : List Char} {d : Nat} {ds : List Nat}
    (h : takeDigits cs = (d :: ds, rest)) : ∃ c cs', cs = c :: cs' ∧ isDigit c = true := by
  cases cs with
  | nil => cases h
  | cons c cs =>
    refine ⟨c, cs, rfl, ?_⟩
    cases hc : digit? c with
    | none =>
      unfold takeDigits at h
      simp [hc] at h
    | some k => simp [isDigit, hc]

/-- A digit at the beginning is enough for a number to be there. -/
theorem startsNumber_of_isDigit {c : Char} (h : isDigit c = true) (cs : List Char) :
    startsNumber (c :: cs) = true := by
  unfold startsNumber
  split
  · rename_i d ds he
    cases he
    exact absurd h (by decide)
  · rename_i d ds _ he
    cases he
    exact h
  · rename_i he
    cases he

/-- The text of an integer is that of a fraction, with the same sign and digits. -/
theorem fraction?_of_integer? {t : String} {n : IntegerText} (h : integer? t = some n) :
    fraction? t = some ⟨n.negative, n.digits, .decimal [] none⟩ := by
  unfold integer? at h
  split at h
  rename_i negative cs hsign
  split at h
  · rename_i d ds hdigits
    cases h
    obtain ⟨c, cs', rfl, hc⟩ := isDigit_of_takeDigits hdigits
    simp only [fraction?, hsign, startsNumber_of_isDigit hc, hdigits, takePlaces, takeExponent,
      Bool.not_true, Bool.false_eq_true, if_false]
  · cases h

end Numeral

namespace Rational

theorem settle_intCast (n : Int) : settle (n : Rat) = n :=
  approximate_of_den_le (by simp)

/-- Both readers of numerals read an integer as the number that it spells. -/
theorem read_of_isInteger {t : String} (h : IsInteger t) :
    ∃ n : Int, read t = .ok (n : Rat) ∧ readNumeral t = .ok (n : Rat) := by
  obtain ⟨n, hn, hlen⟩ := h.spells
  have hpoint : t.toList.contains '.' = false := by simpa using h.no_point
  have hdigits : readDigits n.digits = .ok (digitsValue n.digits) := if_neg (by omega)
  have hparts : ofDecimalParts n.negative (digitsValue n.digits) 0 0 0 =
      (signed n.negative (digitsValue n.digits) : Int) := by
    simp [ofDecimalParts, Rat.mkRat_one]
  refine ⟨signed n.negative (digitsValue n.digits), ?_, ?_⟩
  · have hexact : readExact t =
        .ok (ofDecimalParts n.negative (digitsValue n.digits) 0 0 0) := by
      simp only [readExact, fraction?_of_integer? hn, hdigits, ok_bind]
      rfl
    rw [read, hexact, hparts, map_ok, settle_intCast]
  · simp only [readNumeral, hpoint, readInteger, hn, hdigits, Bool.false_eq_true, if_false, map_ok]

theorem powNat_eq (q : Rat) (n : Nat) : powNat q n = q ^ n := by
  rw [powNat, Int.pow_eq, Nat.pow_eq, ← Rat.num_pow, ← Rat.den_pow, Rat.mkRat_self]

end Rational

namespace Value

/-- The sign of powers computes the power, if the exponent is a natural number. -/
theorem powRational_natCast (p : Rat) (n : Nat) : powRational p n = .ok (.rational (p ^ n)) := by
  have hpow : Rational.pow? p n = some (p ^ n) := by
    rw [Rational.pow?, if_pos (Int.natCast_nonneg n), Int.toNat_natCast, Rational.powNat_eq]
  rw [powRational, if_pos (Rat.den_natCast n), Rat.num_natCast, powInteger, hpow]

end Value

namespace Scope
variable {s : Scope} {y : String} {q : Rat}

/-- A name that is known in an equation is that of a rational, or of data in the place of one. -/
theorem lookup?_of_known (hp : ∀ d, s.lookup? y ≠ some (.plain d))
    (h : Polynomial.known s y = .ok q) : s.lookup? y = some (.rational q) := by
  unfold Polynomial.known at h
  split at h
  · cases h
  · cases h
    assumption
  · rename_i v _ hv
    cases v with
    | plain d => exact absurd hv (hp d)
    | rational | complex | matrix | function | builtin => cases h

end Scope

namespace Polynomial
variable {s : Scope} {x : String} {e l r : Expr} {p q : Polynomial} {P Q : ℚ[X]} {m n : Nat}

def valueAt (p : Polynomial) (r : Rat) : Rat :=
  (p.terms.map (fun t => t.2 * r ^ t.1)).sum

/-- The sum of the terms is the value of the polynomial that they stand for. -/
theorem Represents.valueAt_eq (h : p.Represents P n) (r : Rat) : p.valueAt r = P.eval r := by
  have hsum : ∀ ts : List (Int × Rat), (∀ k ∈ powers ts, 0 ≤ k) →
      (ts.map (fun t => t.2 * r ^ t.1)).sum = (meaning ts).eval r := by
    intro ts hts
    induction ts with
    | nil => simp
    | cons t ts ih =>
      obtain ⟨k, hk⟩ := Int.eq_ofNat_of_zero_le (hts t.1 List.mem_cons_self)
      have hrest := ih fun j hj => hts j (List.mem_cons_of_mem _ hj)
      simp [hrest, hk]
  rw [valueAt, hsum p.terms h.nonneg, h.meaning_eq]

/-- What the solver takes for the variable alone is the variable. -/
theorem Represents.eq_X (h : p.Represents P n) (hp : p.isVariable = true) : P = X := by
  have hterms : p.terms = [(1, 1)] := by simpa [isVariable] using hp
  have hmeaning := h.meaning_eq
  rw [hterms] at hmeaning
  simpa using hmeaning.symm

theorem Represents.eq_C {c : Rat} (h : p.Represents P n) (hp : p.constant? = some c) :
    P = C c := by
  have hterms : p.terms = [(0, c)] := by
    unfold constant? at hp
    split at hp
    · cases hp
      assumption
    · cases hp
  have hmeaning := h.meaning_eq
  rw [hterms] at hmeaning
  simpa using hmeaning.symm

/-- Expressions that mean the same to the solver and to the evaluator, wherever the solver takes
them for polynomials: numerals are read alike, no name differs from `x` in case only, and exponents
are natural numbers. -/
def Tame (s : Scope) (x : String) : Expr → Prop
  | .number t => Rational.readNumeral t = Rational.read t
  | .var y => y = x ∨ Text.lower y ≠ Text.lower x ∧ ∀ d, s.lookup? y ≠ some (.plain d)
  | .unary _ e => Tame s x e
  | .binary op l r => Tame s x l ∧ Tame s x r ∧
      (op = .pow → ∀ q c, ofExpr s x r = .ok q → q.constant? = some c → ∃ n : Nat, c = n)
  | .absent | .other _ => False
  | .imaginary | .call _ _ | .matrix _ => True

def Evaluates (s : Scope) (x : String) (e : Expr) (P : ℚ[X]) : Prop :=
  ∀ a : Rat, e.Computes (s.bind x (.rational a)) (P.eval a)

namespace Evaluates

theorem neg (h : Evaluates s x e P) : Evaluates s x (.unary .neg e) (-P) := by
  intro a
  rw [eval_neg]
  exact (h a).neg

theorem binary {op : BinOp} (hl : Evaluates s x l P) (hr : Evaluates s x r Q) {R : ℚ[X]}
    (h : ∀ a, Value.combine op (.rational (P.eval a)) (.rational (Q.eval a)) =
      .ok (.rational (R.eval a))) : Evaluates s x (.binary op l r) R :=
  fun a => (hl a).binary (hr a) (h a)

end Evaluates

/-- Each sign does to polynomials what it does to their values. -/
theorem combine_evaluates {op : BinOp} (hp : p.Represents P m) (hq : q.Represents Q n)
    (hl : Evaluates s x l P) (hr : Evaluates s x r Q)
    (hpow : op = .pow → ∀ c, q.constant? = some c → ∃ k : Nat, c = k) {d : Polynomial}
    (h : combine op p q = .ok d) :
    ∃ R k, d.Represents R k ∧ Evaluates s x (.binary op l r) R := by
  cases op with
  | add =>
    cases h
    exact ⟨_, _, hp.add hq, hl.binary hr fun a => by rw [eval_add]; rfl⟩
  | sub =>
    cases h
    exact ⟨_, _, hp.sub hq, hl.binary hr fun a => by rw [eval_sub]; rfl⟩
  | mul =>
    cases h
    exact ⟨_, _, hp.mul hq, hl.binary hr fun a => by rw [eval_mul]; rfl⟩
  | pow =>
    simp only [combine, power] at h
    split at h
    · rename_i c hc
      split at h
      · rename_i hvar
        obtain ⟨k, rfl⟩ := hpow rfl c hc
        have hcut : Int.tdiv (k : Rat).num (k : Rat).den = k := by simp
        rw [hcut] at h
        cases h
        refine ⟨_, _, represents_monomial k, hl.binary hr fun a => ?_⟩
        rw [hp.eq_X hvar, hq.eq_C hc, eval_X, eval_C, eval_pow, eval_X]
        exact Value.powRational_natCast a k
      · cases h
    · cases h
  | div | mod | matMul | other => cases h

/-- What the solver takes for a polynomial has the values of that polynomial. -/
theorem ofExpr_evaluates (ht : Tame s x e) (h : ofExpr s x e = .ok p) :
    ∃ P n, p.Represents P n ∧ Evaluates s x e P := by
  induction e generalizing p with
  | absent | other => exact ht.elim
  | imaginary | call | matrix => cases h
  | number t =>
    obtain ⟨c, hc, rfl⟩ := map_eq_ok.mp h
    refine ⟨_, _, represents_constant c, fun a => ?_⟩
    rw [eval_C]
    exact .number (ht.trans hc)
  | var y =>
    unfold ofExpr at h
    split at h
    · rename_i hy
      subst hy
      cases h
      refine ⟨_, _, represents_monomial 1, fun a => ?_⟩
      rw [pow_one, eval_X]
      exact .var (Scope.lookup?_bind rfl s y)
    · rename_i hy
      obtain ⟨hne, hplain⟩ := ht.resolve_left hy
      obtain ⟨c, hc, rfl⟩ := map_eq_ok.mp h
      refine ⟨_, _, represents_constant c, fun a => ?_⟩
      rw [eval_C]
      exact .var ((Scope.lookup?_bind_of_ne hne _).trans (Scope.lookup?_of_known hplain hc))
  | unary op e ih =>
    obtain ⟨q, hq, h⟩ := bind_eq_ok.mp h
    obtain ⟨P, n, hrep, hev⟩ := ih ht hq
    cases op with
    | other sign => cases h
    | neg =>
      cases h
      exact ⟨_, _, hrep.neg, hev.neg⟩
  | binary op l r ihl ihr =>
    obtain ⟨htl, htr, hpow⟩ := ht
    obtain ⟨p₁, h₁, h⟩ := bind_eq_ok.mp h
    obtain ⟨p₂, h₂, h⟩ := bind_eq_ok.mp h
    obtain ⟨P, m, hP, hevl⟩ := ihl htl h₁
    obtain ⟨Q, n, hQ, hevr⟩ := ihr htr h₂
    exact combine_evaluates hP hQ hevl hevr (fun hop c => hpow hop p₂ c h₂) h

end Polynomial

/-- Polynomials in `x` over integers and over the rationals that other names stand for. The exponent
of a power has no `x` in it and is a natural number. -/
inductive Expr.IsPolynomialOver (s : Scope) (x : String) : Expr → Prop
  | number {t : String} (ht : IsInteger t) : IsPolynomialOver s x (.number t)
  | var : IsPolynomialOver s x (.var x)
  | known {y : String} {c : Rat} (hy : Text.lower y ≠ Text.lower x)
      (hc : s.lookup? y = some (.rational c)) : IsPolynomialOver s x (.var y)
  | neg {e : Expr} (he : IsPolynomialOver s x e) : IsPolynomialOver s x (.unary .neg e)
  | add {l r : Expr} (hl : IsPolynomialOver s x l) (hr : IsPolynomialOver s x r) :
      IsPolynomialOver s x (.binary .add l r)
  | sub {l r : Expr} (hl : IsPolynomialOver s x l) (hr : IsPolynomialOver s x r) :
      IsPolynomialOver s x (.binary .sub l r)
  | mul {l r : Expr} (hl : IsPolynomialOver s x l) (hr : IsPolynomialOver s x r) :
      IsPolynomialOver s x (.binary .mul l r)
  | pow {e : Expr} {n : Nat} (he : IsPolynomialOver s x e) (hx : e.mentions x = false)
      (hn : s.eval e = .ok (.rational n)) : IsPolynomialOver s x (.binary .pow (.var x) e)

namespace Polynomial
variable {s : Scope} {x : String} {e : Expr}

/-- Constants are combined as their values are. -/
theorem ofExpr_constant_binary {l r : Expr} {op : BinOp} {a b c : Rat}
    (hl : ofExpr s x l = .ok (constant a) ∧ l.Computes s a)
    (hr : ofExpr s x r = .ok (constant b) ∧ r.Computes s b)
    (hp : combine op (constant a) (constant b) = .ok (constant c))
    (hv : Value.combine op (.rational a) (.rational b) = .ok (.rational c)) :
    ofExpr s x (.binary op l r) = .ok (constant c) ∧ (Expr.binary op l r).Computes s c := by
  refine ⟨?_, hl.2.binary hr.2 hv⟩
  rw [ofExpr, hl.1, hr.1]
  exact hp

/-- Without the variable an expression is a constant, with the value that it has. -/
theorem ofExpr_constant (h : e.IsPolynomialOver s x) (hx : e.mentions x = false) :
    ∃ c, ofExpr s x e = .ok (constant c) ∧ e.Computes s c := by
  induction h with
  | number ht =>
    obtain ⟨n, hread, hnumeral⟩ := Rational.read_of_isInteger ht
    exact ⟨n, by simp [ofExpr, hread], .number hnumeral⟩
  | var | pow => simp [Expr.mentions] at hx
  | @known y c hy hc =>
    have hne : y ≠ x := fun he => hy (he ▸ rfl)
    exact ⟨c, by simp [ofExpr, hne, known, hc], .var hc⟩
  | neg _ ih =>
    obtain ⟨c, hc, hv⟩ := ih hx
    exact ⟨-c, by simp [ofExpr, hc, Polynomial.neg, constant], hv.neg⟩
  | add _ _ ihl ihr =>
    obtain ⟨hxl, hxr⟩ := Bool.or_eq_false_iff.mp hx
    obtain ⟨a, ha⟩ := ihl hxl
    obtain ⟨b, hb⟩ := ihr hxr
    exact ⟨a + b, ofExpr_constant_binary ha hb rfl rfl⟩
  | sub _ _ ihl ihr =>
    obtain ⟨hxl, hxr⟩ := Bool.or_eq_false_iff.mp hx
    obtain ⟨a, ha⟩ := ihl hxl
    obtain ⟨b, hb⟩ := ihr hxr
    refine ⟨a + -b, ofExpr_constant_binary ha hb rfl ?_⟩
    rw [← sub_eq_add_neg]
    rfl
  | mul _ _ ihl ihr =>
    obtain ⟨hxl, hxr⟩ := Bool.or_eq_false_iff.mp hx
    obtain ⟨a, ha⟩ := ihl hxl
    obtain ⟨b, hb⟩ := ihr hxr
    exact ⟨a * b, ofExpr_constant_binary ha hb rfl rfl⟩

/-- The exponent of a power is the constant that it evaluates to. -/
theorem ofExpr_exponent {n : Nat} (h : e.IsPolynomialOver s x) (hx : e.mentions x = false)
    (hn : s.eval e = .ok (.rational n)) : ofExpr s x e = .ok (constant n) := by
  obtain ⟨c, hc, hv⟩ := ofExpr_constant h hx
  have heval : s.eval e = .ok (.rational c) := (evalDeep_cut (by decide) s e).eq_ok hv.evalDeep
  cases heval.symm.trans hn
  exact hc

/-- Such an expression means the same to the solver and to the evaluator. -/
theorem tame_of_isPolynomialOver (h : e.IsPolynomialOver s x) : Tame s x e := by
  induction h with
  | number ht =>
    obtain ⟨n, hread, hnumeral⟩ := Rational.read_of_isInteger ht
    exact hnumeral.trans hread.symm
  | var => exact .inl rfl
  | known hy hc => exact .inr ⟨hy, by simp [hc]⟩
  | neg _ ih => exact ih
  | add _ _ ihl ihr | sub _ _ ihl ihr | mul _ _ ihl ihr => exact ⟨ihl, ihr, nofun⟩
  | @pow e n he hx hn ih =>
    refine ⟨.inl rfl, ih, fun _ q c hq hc => ⟨n, ?_⟩⟩
    cases (ofExpr_exponent he hx hn).symm.trans hq
    cases hc
    rfl

/-- Every such expression is taken for a polynomial. -/
theorem ofExpr_isPolynomialOver (h : e.IsPolynomialOver s x) : ∃ p, ofExpr s x e = .ok p := by
  induction h with
  | number ht =>
    obtain ⟨n, hread, -⟩ := Rational.read_of_isInteger ht
    exact ⟨_, by rw [ofExpr, hread]; rfl⟩
  | var => exact ⟨_, if_pos rfl⟩
  | @known y c hy hc =>
    have hne : y ≠ x := fun he => hy (he ▸ rfl)
    exact ⟨constant c, by simp [ofExpr, hne, known, hc]⟩
  | neg _ ih =>
    obtain ⟨p, hp⟩ := ih
    exact ⟨_, by rw [ofExpr, hp]; rfl⟩
  | add _ _ ihl ihr | sub _ _ ihl ihr | mul _ _ ihl ihr =>
    obtain ⟨p, hp⟩ := ihl
    obtain ⟨q, hq⟩ := ihr
    exact ⟨_, by rw [ofExpr, hp, hq]; rfl⟩
  | @pow e n he hx hn =>
    refine ⟨monomial n, ?_⟩
    simp [ofExpr, ofExpr_exponent he hx hn, combine, power, constant?, constant, isVariable,
      monomial]

/-- Every polynomial expression is taken for a polynomial, without an error and with powers that are
not negative, and its value at any number is the sum of the terms there. -/
theorem ofExpr_sound (s : Scope) (x : String) (e : Expr) (h : e.IsPolynomialOver s x) :
    ∃ p, ofExpr s x e = .ok p ∧ (p.terms.map Prod.fst).Nodup ∧ (∀ t ∈ p.terms, 0 ≤ t.1) ∧
      ∀ a : Rat, (s.bind x (.rational a)).eval e = .ok (.rational (p.valueAt a)) := by
  obtain ⟨p, hp⟩ := ofExpr_isPolynomialOver h
  obtain ⟨P, n, hrep, hev⟩ := ofExpr_evaluates (tame_of_isPolynomialOver h) hp
  refine ⟨p, hp, hrep.nodup, fun t ht => hrep.nonneg t.1 (List.mem_map_of_mem ht), fun a => ?_⟩
  rw [hrep.valueAt_eq a]
  exact (evalDeep_cut (by decide) _ e).eq_ok (hev a).evalDeep

/-- A session with `n = 3` and `a = 1/2`. -/
def halves : Scope where
  bindings := [("n", .rational 3), ("a", .rational (1 / 2))]
  mode := .radians
  home := .session

/-- `-x^(n - 1) * (x - A) + x^0`. -/
def shiftedCube : Expr :=
  .binary .add
    (.binary .mul (.unary .neg (.binary .pow (.var "x") (.binary .sub (.var "n") (.number "1"))))
      (.binary .sub (.var "x") (.var "A")))
    (.binary .pow (.var "x") (.number "0"))

theorem ofExpr_sound_shiftedCube :
    shiftedCube.IsPolynomialOver halves "x" ∧
    ∃ p, ofExpr halves "x" shiftedCube = .ok p ∧ (p.terms.map Prod.fst).Nodup ∧
      (∀ t ∈ p.terms, 0 ≤ t.1) ∧
      ∀ a : Rat,
        (halves.bind "x" (.rational a)).eval shiftedCube = .ok (.rational (p.valueAt a)) := by
  have hn : halves.lookup? "n" = some (.rational 3) := rfl
  have ha : halves.lookup? "A" = some (.rational (1 / 2)) := rfl
  have hone : IsInteger "1" := ⟨by decide, ⟨false, [1]⟩, rfl, by decide⟩
  have hzero : IsInteger "0" := ⟨by decide, ⟨false, [0]⟩, rfl, by decide⟩
  have hexponent : (Expr.binary .sub (.var "n") (.number "1")).IsPolynomialOver halves "x" :=
    .sub (.known (by decide) hn) (.number hone)
  have hcube : shiftedCube.IsPolynomialOver halves "x" :=
    .add (.mul (.neg (.pow (n := 2) hexponent rfl (by with_unfolding_all rfl)))
      (.sub .var (.known (by decide) ha)))
      (.pow (n := 0) (.number hzero) rfl (by with_unfolding_all rfl))
  exact ⟨hcube, ofExpr_sound halves "x" shiftedCube hcube⟩

end Polynomial
end Reckoner
