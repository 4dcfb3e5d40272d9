import Mathlib
import Reckoner.Proofs.Equation.Reduction
import Reckoner.Proofs.Polynomial.Values

open Polynomial

namespace Reckoner
open Outcome

namespace Expr

/-- Numerals and variables, with the signs of sums, differences and products. -/
inductive IsArithmetic : Expr → Prop where
  | number (t : String) : IsArithmetic (.number t)
  | var {x : String} (hx : x ≠ "") : IsArithmetic (.var x)
  | neg {e : Expr} (he : IsArithmetic e) : IsArithmetic (.unary .neg e)
  | add {l r : Expr} (hl : IsArithmetic l) (hr : IsArithmetic r) : IsArithmetic (.binary .add l r)
  | sub {l r : Expr} (hl : IsArithmetic l) (hr : IsArithmetic r) : IsArithmetic (.binary .sub l r)
  | mul {l r : Expr} (hl : IsArithmetic l) (hr : IsArithmetic r) : IsArithmetic (.binary .mul l r)

def names : Expr → List String
  | .var x => [x]
  | .unary _ e => names e
  | .binary _ l r => names l ++ names r
  | _ => []

def numerals : Expr → List String
  | .number t => [t]
  | .unary _ e => numerals e
  | .binary _ l r => numerals l ++ numerals r
  | _ => []

/-- The first variable is the first name of the text. -/
theorem IsArithmetic.firstVariable?_eq {e : Expr} (h : e.IsArithmetic) :
    e.firstVariable? = e.names.head? := by
  have hpair {l r : Expr} (op : BinOp) (hl : l.firstVariable? = l.names.head?)
      (hr : r.firstVariable? = r.names.head?) :
      (Expr.binary op l r).firstVariable? = (Expr.binary op l r).names.head? := by
    rw [firstVariable?, names, List.head?_append, hl, hr]
    cases l.names.head? <;> rfl
  induction h with
  | number t => rfl
  | var hx => exact if_neg hx
  | neg _ ih => exact ih
  | add _ _ ihl ihr | sub _ _ ihl ihr | mul _ _ ihl ihr => exact hpair _ ihl ihr

end Expr

/-- Errors that are not about a name. -/
def Error.IsApart (err : Error) : Prop :=
  err.kind ≠ .name

theorem fails_apart {α : Type} {err : Error} (h : err.kind ≠ .name) :
    Fails Error.IsApart (.error err : Except Error α) :=
  fails_error.mpr h

namespace Rational

theorem readExact_fails (t : String) : Fails Error.IsApart (readExact t) := by
  have hdigits (ds : List Nat) : Fails Error.IsApart (readDigits ds) := by
    unfold readDigits
    split <;> simp [Error.IsApart, Error.kind]
  unfold readExact
  split
  · simp [Error.IsApart, Error.kind]
  · refine (hdigits _).bind fun whole => ?_
    split
    · refine (hdigits _).bind fun d => ?_
      unfold fraction
      split <;> simp [Error.IsApart, Error.kind]
    · refine (hdigits _).bind fun p => ?_
      split
      · simp
      · exact (hdigits _).bind fun k => by simp

theorem read_fails (t : String) : Fails Error.IsApart (read t) :=
  fails_map.mpr (readExact_fails t)

end Rational

namespace Polynomial
variable {s : Scope} {x y : String} {e : Expr} {p : Polynomial} {err : Error}

/-- The error is that of a numeral that cannot be read, or that of a name other than `x` that is not
known. -/
def Misses (s : Scope) (x : String) (e : Expr) (err : Error) : Prop :=
  (∃ t ∈ e.numerals, Rational.read t = .error err) ∨
  ∃ y ∈ e.names, y ≠ x ∧ known s y = .error err

section Sides
variable {op : BinOp} {l r : Expr}

theorem Misses.left (h : Misses s x l err) : Misses s x (.binary op l r) err := by
  rcases h with ⟨t, ht, hread⟩ | ⟨y, hy, hknown⟩
  · exact .inl ⟨t, List.mem_append_left _ ht, hread⟩
  · exact .inr ⟨y, List.mem_append_left _ hy, hknown⟩

theorem Misses.right (h : Misses s x r err) : Misses s x (.binary op l r) err := by
  rcases h with ⟨t, ht, hread⟩ | ⟨y, hy, hknown⟩
  · exact .inl ⟨t, List.mem_append_right _ ht, hread⟩
  · exact .inr ⟨y, List.mem_append_right _ hy, hknown⟩

theorem misses_of_sides {f : Polynomial → Polynomial → Polynomial}
    (h : (do return f (← ofExpr s x l) (← ofExpr s x r)) = Except.error err)
    (hl : ofExpr s x l = .error err → Misses s x l err)
    (hr : ofExpr s x r = .error err → Misses s x r err) : Misses s x (.binary op l r) err := by
  cases hp : ofExpr s x l with
  | error err' =>
    rw [hp] at h
    cases h
    exact (hl hp).left
  | ok p =>
    cases hq : ofExpr s x r with
    | error err' =>
      rw [hp, hq] at h
      cases h
      exact (hr hq).right
    | ok q =>
      rw [hp, hq] at h
      cases h

end Sides

/-- Nothing else than a numeral or a name can fail in an arithmetic expression. -/
theorem misses_of_ofExpr (he : e.IsArithmetic) (h : ofExpr s x e = .error err) :
    Misses s x e err := by
  induction he with
  | number t => exact .inl ⟨t, List.mem_singleton_self t, map_eq_error.mp h⟩
  | @var y hy =>
    unfold ofExpr at h
    split at h
    · cases h
    next hne => exact .inr ⟨y, List.mem_singleton_self y, hne, map_eq_error.mp h⟩
  | neg he ih => exact ih (map_eq_error.mp h)
  | add _ _ ihl ihr => exact misses_of_sides (f := add) h ihl ihr
  | sub _ _ ihl ihr => exact misses_of_sides (f := sub) h ihl ihr
  | mul _ _ ihl ihr => exact misses_of_sides (f := mul) h ihl ihr

/-- All names in an expression that is a polynomial in `x` are known, except for `x`. -/
theorem known_of_ofExpr (h : ofExpr s x e = .ok p) (hy : y ∈ e.names) (hne : y ≠ x) :
    ∃ q, known s y = .ok q := by
  induction e generalizing p with
  | var z =>
    cases List.mem_singleton.mp hy
    rw [ofExpr, if_neg hne] at h
    obtain ⟨q, hq, -⟩ := map_eq_ok.mp h
    exact ⟨q, hq⟩
  | unary op e ih =>
    obtain ⟨q, hq, -⟩ := bind_eq_ok.mp h
    exact ih hq hy
  | binary op l r ihl ihr =>
    obtain ⟨p₁, h₁, h⟩ := bind_eq_ok.mp h
    obtain ⟨p₂, h₂, -⟩ := bind_eq_ok.mp h
    rcases List.mem_append.mp hy with hy | hy
    · exact ihl h₁ hy
    · exact ihr h₂ hy
  | absent | number | imaginary | call | matrix | other => cases hy

theorem known_rational {q : Rat} (h : s.lookup? y = some (.rational q)) : known s y = .ok q := by
  rw [known, h]

/-- A name without a value is what the error names. -/
theorem known_none (h : s.lookup? y = none) : known s y = .error (.undefinedVariable y) := by
  rw [known, h]

end Polynomial

namespace Equation
open Text (lower)
variable {s : Scope} {x : String} {l r : Expr}

section Failures

theorem root_fails {q : Rat} : Fails Error.IsApart (root q) := by
  have hraw (negate : Bool) (x y : Float) : Fails Error.IsApart (Double.rawPower negate x y) := by
    unfold Double.rawPower
    dsimp only
    split
    · exact fails_apart (by decide)
    · exact fails_ok _
  have hfinite (x y : Float) : Fails Error.IsApart (Double.finitePower x y) := by
    unfold Double.finitePower
    split
    · split
      · exact fails_apart (by decide)
      · exact fails_ok _
    split
    · split
      · split <;> exact fails_apart (by decide)
      split
      · exact fails_ok _
      · exact hraw _ _ _
    split
    · exact fails_ok _
    · exact hraw _ _ _
  have hpower (x y : Float) : Fails Error.IsApart (Double.power x y) := by
    unfold Double.power
    iterate 5
      split
      · exact fails_ok _
    exact hfinite x y
  have hdouble : Fails Error.IsApart (Rational.toDouble q) := by
    unfold Rational.toDouble
    split
    · exact fails_apart (by decide)
    · exact fails_ok _
  have hratio (x : Float) : Fails Error.IsApart (Rational.ofDouble x) := by
    unfold Rational.ofDouble
    iterate 2
      split
      · exact fails_apart (by decide)
    exact fails_ok _
  exact hdouble.bind fun x => (hpower x _).bind fun y => (hratio y).bind fun _ => by simp

theorem writable_fails (q : Rat) : Fails Error.IsApart (writable q) := by
  unfold writable
  split <;> simp [Error.IsApart, Error.kind]

theorem quotient_fails (p q : Rat) : Fails Error.IsApart (quotient p q) := by
  unfold quotient
  split <;> simp [Error.IsApart, Error.kind]

theorem quadratic_fails (a b c : Rat) : Fails Error.IsApart (quadratic a b c) := by
  refine (writable_fails _).bind fun d => ?_
  split
  · exact root_fails.bind fun s => (quotient_fails _ _).bind fun x₁ => (quotient_fails _ _).bind
      fun x₂ => (writable_fails _).bind fun _ => (writable_fails _).bind fun _ => by simp
  split
  · exact (quotient_fails _ _).bind fun x => (writable_fails _).bind fun _ => by simp
  · exact (quotient_fails _ _).bind fun re => root_fails.bind fun s => (quotient_fails _ _).bind
      fun im => (writable_fails _).bind fun _ => (writable_fails _).bind fun _ => by simp

/-- Working out the roots can fail, but not for a name. -/
theorem rootsOf_fails (p : Polynomial) (n : Int) : Fails Error.IsApart (rootsOf p n) := by
  unfold rootsOf
  split
  · simp
  split
  · dsimp only
    split
    · simp
    · exact (writable_fails _).bind fun _ => by simp
  · exact quadratic_fails _ _ _

/-- Once the sides are polynomials no name can be missing. -/
theorem conclude_fails (x : String) (d : Polynomial) : Fails Error.IsApart (conclude x d) := by
  unfold conclude
  split
  · simp
  split
  · simp [Error.IsApart, Error.kind]
  · exact fails_map.mpr (rootsOf_fails _ _)

end Failures

theorem unknown?_eq_head? (hl : l.IsArithmetic) (hr : r.IsArithmetic) :
    unknown? l r = (l.names ++ r.names).head? := by
  rw [unknown?, hl.firstVariable?_eq, hr.firstVariable?_eq, List.head?_append]
  cases l.names.head? <;> rfl

/-- A side that is no polynomial decides on the outcome, else the difference of the sides does. -/
theorem solveFor_cases (s : Scope) (z : String) (l r : Expr) :
    (∃ err, solveFor s z l r = .error err ∧
      (Polynomial.ofExpr s z l = .error err ∨ Polynomial.ofExpr s z r = .error err)) ∨
    ∃ p q, Polynomial.ofExpr s z l = .ok p ∧ Polynomial.ofExpr s z r = .ok q ∧
      solveFor s z l r = conclude z (p.sub q) := by
  cases hp : Polynomial.ofExpr s z l with
  | error err => exact .inl ⟨err, by simp only [solveFor, hp, error_bind], .inl rfl⟩
  | ok p =>
    cases hq : Polynomial.ofExpr s z r with
    | error err => exact .inl ⟨err, by simp only [solveFor, hp, hq, ok_bind, error_bind], .inr rfl⟩
    | ok q => exact .inr ⟨p, q, rfl, rfl, solveFor_eq_conclude hp hq⟩

/-- Of the names `ys` only `x` has no value, in any spelling, and the others stand for rationals. -/
structure OnlyLacks (s : Scope) (x : String) (ys : List String) : Prop where
  unbound : s.lookup? x = none
  occurs : ∃ y ∈ ys, lower y = lower x
  others : ∀ y ∈ ys, lower y ≠ lower x → ∃ q, s.lookup? y = some (.rational q)

/-- The first of the names `ys` is `x`, and all others of them are spelled like the first or differ
from it in more than the case of letters. -/
structure Leads (x z : String) (ys : List String) : Prop where
  head : ys.head? = some z
  same : lower z = lower x
  spelled : ∀ y ∈ ys, lower y = lower x → y = z

section Unknown
variable {z : String} {e : Expr} {ys : List String} {err : Error}

theorem OnlyLacks.lookup?_eq_none {y : String} (h : OnlyLacks s x ys) (hy : lower y = lower x) :
    s.lookup? y = none := by
  rw [← h.unbound, Scope.lookup?, Scope.lookup?, hy]

theorem OnlyLacks.known {y : String} (h : OnlyLacks s x ys) (hy : y ∈ ys)
    (hne : lower y ≠ lower x) : ∃ q, Polynomial.known s y = .ok q := by
  obtain ⟨q, hq⟩ := h.others y hy hne
  exact ⟨q, Polynomial.known_rational hq⟩

/-- A name that is missed where numerals can be read is `x` in another spelling than `z`. -/
theorem OnlyLacks.eq_undefined (h : OnlyLacks s x ys) (hsub : e.names ⊆ ys)
    (hread : ∀ t ∈ e.numerals, ∃ q, Rational.read t = .ok q)
    (hm : Polynomial.Misses s z e err) :
    ∃ y ∈ ys, lower y = lower x ∧ y ≠ z ∧ err = .undefinedVariable y := by
  rcases hm with ⟨t, ht, herr⟩ | ⟨y, hy, hne, herr⟩
  · obtain ⟨q, hq⟩ := hread t ht
    cases hq.symm.trans herr
  · by_cases hsame : lower y = lower x
    · rw [Polynomial.known_none (h.lookup?_eq_none hsame)] at herr
      cases herr
      exact ⟨y, hsub hy, hsame, hne, rfl⟩
    · obtain ⟨q, hq⟩ := h.known (hsub hy) hsame
      cases hq.symm.trans herr

/-- Where `x` leads, only numerals can be missed. -/
theorem Leads.exists_numeral (hz : Leads x z ys) (h : OnlyLacks s x ys) (hsub : e.names ⊆ ys)
    (hm : Polynomial.Misses s z e err) : ∃ t ∈ e.numerals, Rational.read t = .error err := by
  rcases hm with ht | ⟨y, hy, hne, herr⟩
  · exact ht
  · have hother : lower y ≠ lower x := fun hsame => hne (hz.spelled y (hsub hy) hsame)
    obtain ⟨q, hq⟩ := h.known (hsub hy) hother
    cases hq.symm.trans herr

theorem Leads.ofExpr_fails (hz : Leads x z ys) (h : OnlyLacks s x ys) (he : e.IsArithmetic)
    (hsub : e.names ⊆ ys) : Fails Error.IsApart (Polynomial.ofExpr s z e) := by
  intro err herr
  obtain ⟨t, -, ht⟩ := hz.exists_numeral h hsub (Polynomial.misses_of_ofExpr he herr)
  exact Rational.read_fails t err ht

/-- Where `x` leads, a side whose numerals can be read is a polynomial. -/
theorem Leads.ofExpr_ok (hz : Leads x z ys) (h : OnlyLacks s x ys) (he : e.IsArithmetic)
    (hsub : e.names ⊆ ys) (hread : ∀ t ∈ e.numerals, ∃ q, Rational.read t = .ok q) :
    ∃ p, Polynomial.ofExpr s z e = .ok p := by
  cases hp : Polynomial.ofExpr s z e with
  | ok p => exact ⟨p, rfl⟩
  | error err =>
    obtain ⟨t, ht, herr⟩ := hz.exists_numeral h hsub (Polynomial.misses_of_ofExpr he hp)
    obtain ⟨q, hq⟩ := hread t ht
    cases hq.symm.trans herr

theorem Leads.tame (hz : Leads x z ys) (h : OnlyLacks s x ys) (he : e.IsArithmetic)
    (hsub : e.names ⊆ ys)
    (hread : ∀ t ∈ e.numerals, Rational.readNumeral t = Rational.read t) :
    Polynomial.Tame s z e := by
  have hpair {l r : Expr} {op : BinOp} (hop : op ≠ .pow)
      (ihl : l.names ⊆ ys → (∀ t ∈ l.numerals, Rational.readNumeral t = Rational.read t) →
        Polynomial.Tame s z l)
      (ihr : r.names ⊆ ys → (∀ t ∈ r.numerals, Rational.readNumeral t = Rational.read t) →
        Polynomial.Tame s z r)
      (hsub : l.names ++ r.names ⊆ ys)
      (hread : ∀ t ∈ l.numerals ++ r.numerals, Rational.readNumeral t = Rational.read t) :
      Polynomial.Tame s z (.binary op l r) := by
    obtain ⟨hsubl, hsubr⟩ := List.append_subset.mp hsub
    obtain ⟨hreadl, hreadr⟩ := List.forall_mem_append.mp hread
    exact ⟨ihl hsubl hreadl, ihr hsubr hreadr, fun h => absurd h hop⟩
  induction he with
  | number t => exact hread t (List.mem_singleton_self t)
  | @var y hy =>
    have hmem : y ∈ ys := hsub (List.mem_singleton_self y)
    by_cases hsame : lower y = lower x
    · exact .inl (hz.spelled y hmem hsame)
    · obtain ⟨q, hq⟩ := h.others y hmem hsame
      refine .inr ⟨hz.same.symm ▸ hsame, fun d hd => ?_⟩
      cases hq.symm.trans hd
  | neg _ ih => exact ih hsub hread
  | add _ _ ihl ihr => exact hpair nofun ihl ihr hsub hread
  | sub _ _ ihl ihr => exact hpair nofun ihl ihr hsub hread
  | mul _ _ ihl ihr => exact hpair nofun ihl ihr hsub hread

/-- If `x` does not lead, it occurs in a spelling that the first name does not have. -/
theorem OnlyLacks.exists_other (h : OnlyLacks s x ys) (hz : ys.head? = some z)
    (hnot : ∀ z, ¬ Leads x z ys) : ∃ y ∈ ys, lower y = lower x ∧ y ≠ z := by
  by_contra hno
  push Not at hno
  obtain ⟨y, hy, hsame⟩ := h.occurs
  exact hnot z ⟨hz, hno y hy hsame ▸ hsame, hno⟩

end Unknown

section Sides
variable {z : String}

/-- No name is missed in an equation that `x` leads. -/
theorem Leads.solveFor_fails (hz : Leads x z (l.names ++ r.names))
    (hx : OnlyLacks s x (l.names ++ r.names)) (hl : l.IsArithmetic) (hr : r.IsArithmetic) :
    Fails Error.IsApart (solveFor s z l r) := by
  rcases solveFor_cases s z l r with ⟨err, herr, hside⟩ | ⟨p, q, -, -, heq⟩
  · rw [herr, fails_error]
    rcases hside with hp | hq
    · exact hz.ofExpr_fails hx hl (List.subset_append_left _ _) err hp
    · exact hz.ofExpr_fails hx hr (List.subset_append_right _ _) err hq
  · rw [heq]
    exact conclude_fails z _

/-- An equation that `x` leads is about the difference of its sides. -/
theorem Leads.solveFor_eq (hz : Leads x z (l.names ++ r.names))
    (hx : OnlyLacks s x (l.names ++ r.names)) (hl : l.IsArithmetic) (hr : r.IsArithmetic)
    (hread : ∀ t ∈ l.numerals ++ r.numerals, ∃ q, Rational.read t = .ok q) :
    ∃ d, solveFor s z l r = conclude z d ∧
      ((∀ t ∈ l.numerals ++ r.numerals, Rational.readNumeral t = Rational.read t) →
        ∀ q, ∃ a b, (s.bind z (.rational q)).eval l = .ok (.rational a) ∧
          (s.bind z (.rational q)).eval r = .ok (.rational b) ∧ d.valueAt q = a - b) := by
  have hsubl : l.names ⊆ l.names ++ r.names := List.subset_append_left _ _
  have hsubr : r.names ⊆ l.names ++ r.names := List.subset_append_right _ _
  obtain ⟨hreadl, hreadr⟩ := List.forall_mem_append.mp hread
  obtain ⟨p, hp⟩ := hz.ofExpr_ok hx hl hsubl hreadl
  obtain ⟨q, hq⟩ := hz.ofExpr_ok hx hr hsubr hreadr
  refine ⟨p.sub q, solveFor_eq_conclude hp hq, fun hexact a => ?_⟩
  obtain ⟨hexactl, hexactr⟩ := List.forall_mem_append.mp hexact
  -- The values are those of library polynomials, which the tables of both sides stand for.
  obtain ⟨P, m, hP, hevl⟩ := Polynomial.ofExpr_evaluates (hz.tame hx hl hsubl hexactl) hp
  obtain ⟨Q, n, hQ, hevr⟩ := Polynomial.ofExpr_evaluates (hz.tame hx hr hsubr hexactr) hq
  refine ⟨P.eval a, Q.eval a, ?_, ?_, ?_⟩
  · exact (Eval.evalDeep_cut (by decide) _ l).eq_ok (hevl a).evalDeep
  · exact (Eval.evalDeep_cut (by decide) _ r).eq_ok (hevr a).evalDeep
  · rw [(hP.sub hQ).valueAt_eq, eval_sub]

/-- An equation in another name than `x` has no answer, as `x` is not known. -/
theorem OnlyLacks.solveFor_eq_error {y : String} (hx : OnlyLacks s x (l.names ++ r.names))
    (hl : l.IsArithmetic) (hr : r.IsArithmetic) (hy : y ∈ l.names ++ r.names)
    (hsame : lower y = lower x) (hne : y ≠ z) :
    (∃ err, solveFor s z l r = .error err) ∧
    ((∀ t ∈ l.numerals ++ r.numerals, ∃ q, Rational.read t = .ok q) →
      ∃ y, lower y = lower x ∧ solveFor s z l r = .error (.undefinedVariable y)) := by
  rcases solveFor_cases s z l r with ⟨err, herr, hside⟩ | ⟨p, q, hp, hq, -⟩
  · refine ⟨⟨err, herr⟩, fun hread => ?_⟩
    obtain ⟨hreadl, hreadr⟩ := List.forall_mem_append.mp hread
    obtain ⟨y, -, hy, -, rfl⟩ : ∃ y ∈ l.names ++ r.names,
        lower y = lower x ∧ y ≠ z ∧ err = .undefinedVariable y := by
      rcases hside with hp | hq
      · exact hx.eq_undefined (List.subset_append_left _ _) hreadl
          (Polynomial.misses_of_ofExpr hl hp)
      · exact hx.eq_undefined (List.subset_append_right _ _) hreadr
          (Polynomial.misses_of_ofExpr hr hq)
    exact ⟨y, hy, herr⟩
  · obtain ⟨c, hc⟩ : ∃ c, Polynomial.known s y = .ok c := by
      rcases List.mem_append.mp hy with hy | hy
      · exact Polynomial.known_of_ofExpr hp hy hne
      · exact Polynomial.known_of_ofExpr hq hy hne
    rw [Polynomial.known_none (hx.lookup?_eq_none hsame)] at hc
    cases hc

end Sides

/-- The unknown is the first name in the order of the text. Where one name `x` has no value, the
equation is solved for it if `x` leads. Otherwise there is no answer, and `x` is called undefined
unless a numeral cannot be read. -/
theorem solve_unknown (s : Scope) (left right l r : Expr) (x : String)
    (hl : expand s left = .ok l) (hr : expand s right = .ok r)
    (hla : l.IsArithmetic) (hra : r.IsArithmetic)
    (hx : OnlyLacks s x (l.names ++ r.names)) :
    (∀ z, Leads x z (l.names ++ r.names) →
      (∀ err, solve s left right = .error err → err.kind ≠ .name) ∧
      ((∀ t ∈ l.numerals ++ r.numerals, ∃ q, Rational.read t = .ok q) →
        ∃ d, solve s left right = conclude z d ∧
          ((∀ t ∈ l.numerals ++ r.numerals, Rational.readNumeral t = Rational.read t) →
            ∀ q, ∃ a b, (s.bind z (.rational q)).eval l = .ok (.rational a) ∧
              (s.bind z (.rational q)).eval r = .ok (.rational b) ∧ d.valueAt q = a - b))) ∧
    ((∀ z, ¬ Leads x z (l.names ++ r.names)) →
      (∃ err, solve s left right = .error err) ∧
      ((∀ t ∈ l.numerals ++ r.numerals, ∃ q, Rational.read t = .ok q) →
        ∃ y, lower y = lower x ∧ solve s left right = .error (.undefinedVariable y))) := by
  have hsolve {z : String} (hz : (l.names ++ r.names).head? = some z) :
      solve s left right = solveFor s z l r := by
    simp only [solve, hl, hr, ok_bind, unknown?_eq_head? hla hra, hz]
  constructor
  · intro z hz
    rw [hsolve hz.head]
    exact ⟨hz.solveFor_fails hx hla hra, hz.solveFor_eq hx hla hra⟩
  · intro hnot
    obtain ⟨y, hy, -⟩ := hx.occurs
    obtain ⟨z, hz⟩ := Option.isSome_iff_exists.mp
      (List.isSome_head?.mpr (List.ne_nil_of_mem hy))
    obtain ⟨y, hy, hsame, hne⟩ := hx.exists_other hz hnot
    rw [hsolve hz]
    exact hx.solveFor_eq_error hla hra hy hsame hne

def shifted : Scope where
  bindings := [("y", .rational 2),
    ("f", .function ⟨"t", .binary .add (.var "t") (.var "x"), some "f"⟩)]
  mode := .radians
  home := .session

theorem shifted_onlyLacks {ys : List String} (hx : "x" ∈ ys) (hys : ∀ y ∈ ys, y = "x" ∨ y = "y") :
    OnlyLacks shifted "x" ys := by
  refine ⟨by with_unfolding_all rfl, ⟨"x", hx, rfl⟩, fun y hy hne => ?_⟩
  rcases hys y hy with rfl | rfl
  · exact absurd rfl hne
  · exact ⟨2, by with_unfolding_all rfl⟩

/-- The name `x` comes out of the body of `f`: before `y` in `f(1) + y = 5`, where it is solved for,
and after `y` in `f(y) + 1 = 5`, where it is missed. -/
theorem solve_unknown_shifted :
    let leading := Expr.binary .add (.call "f" (.number "1")) (.var "y")
    let l₁ := Expr.binary .add (.binary .add (.number "1") (.var "x")) (.var "y")
    let trailing := Expr.binary .add (.call "f" (.var "y")) (.number "1")
    let l₂ := Expr.binary .add (.binary .add (.var "y") (.var "x")) (.number "1")
    let r := Expr.number "5"
    (expand shifted leading = .ok l₁ ∧ l₁.IsArithmetic ∧
      OnlyLacks shifted "x" (l₁.names ++ r.names) ∧
      ∃ d, solve shifted leading r = conclude "x" d ∧ ∀ q, ∃ a b,
        (shifted.bind "x" (.rational q)).eval l₁ = .ok (.rational a) ∧
        (shifted.bind "x" (.rational q)).eval r = .ok (.rational b) ∧ d.valueAt q = a - b) ∧
    (expand shifted trailing = .ok l₂ ∧ l₂.IsArithmetic ∧
      OnlyLacks shifted "x" (l₂.names ++ r.names) ∧
      ∃ y, lower y = lower "x" ∧ solve shifted trailing r = .error (.undefinedVariable y)) := by
  intro leading l₁ trailing l₂ r
  have hr : expand shifted r = .ok r := by with_unfolding_all rfl
  have hra : r.IsArithmetic := .number "5"
  have hread : ∀ t ∈ ["1", "5"], ∃ q, Rational.read t = .ok q ∧ Rational.readNumeral t = .ok q := by
    simp only [List.forall_mem_cons]
    refine ⟨⟨1, ?_, ?_⟩, ⟨5, ?_, ?_⟩, nofun⟩ <;> with_unfolding_all rfl
  have hreads : ∀ t ∈ ["1", "5"], ∃ q, Rational.read t = .ok q :=
    fun t ht => (hread t ht).imp fun q hq => hq.1
  constructor
  · have hl : expand shifted leading = .ok l₁ := by with_unfolding_all rfl
    have hla : l₁.IsArithmetic := .add (.add (.number "1") (.var (by decide))) (.var (by decide))
    have hx : OnlyLacks shifted "x" ["x", "y"] := shifted_onlyLacks (by decide) (by decide)
    have hleads : Leads "x" "x" ["x", "y"] := ⟨rfl, rfl, by decide⟩
    obtain ⟨d, hd, hvalues⟩ := ((solve_unknown shifted leading r l₁ r "x" hl hr hla hra hx).1
      "x" hleads).2 hreads
    refine ⟨hl, hla, hx, d, hd, hvalues fun t ht => ?_⟩
    obtain ⟨q, hq, hq'⟩ := hread t ht
    exact hq'.trans hq.symm
  · have hl : expand shifted trailing = .ok l₂ := by with_unfolding_all rfl
    have hla : l₂.IsArithmetic := .add (.add (.var (by decide)) (.var (by decide))) (.number "1")
    have hx : OnlyLacks shifted "x" ["y", "x"] := shifted_onlyLacks (by decide) (by decide)
    have hnot : ∀ z, ¬ Leads "x" z ["y", "x"] := by
      rintro z ⟨hhead, hsame, -⟩
      cases hhead
      exact absurd hsame (by decide)
    exact ⟨hl, hla, hx,
      ((solve_unknown shifted trailing r l₂ r "x" hl hr hla hra hx).2 hnot).2 hreads⟩

end Equation
end Reckoner
