import Mathlib
import Reckoner.Proofs.Formula

namespace Reckoner
open Outcome

def BinOp.isIntegral : BinOp → Bool
  | .add | .sub | .mul => true
  | _ => false

namespace Expr

/-- Expressions in `x` of integers that can be read, with the signs of sums, differences and
products. -/
inductive IsIntegral (x : String) : Expr → Prop where
  | number {t : String} (ht : Numeral.IsLiteral t) (hr : Numeral.Readable t) :
      IsIntegral x (.number t)
  | var : IsIntegral x (.var x)
  | neg {e : Expr} (he : IsIntegral x e) : IsIntegral x (.unary .neg e)
  | add {l r : Expr} (hl : IsIntegral x l) (hr : IsIntegral x r) : IsIntegral x (.binary .add l r)
  | sub {l r : Expr} (hl : IsIntegral x l) (hr : IsIntegral x r) : IsIntegral x (.binary .sub l r)
  | mul {l r : Expr} (hl : IsIntegral x l) (hr : IsIntegral x r) : IsIntegral x (.binary .mul l r)

/-- The value with `q` in the place of each variable. -/
def arith {R : Type} [Ring R] (q : R) : Expr → R
  | .number t => Numeral.literalValue t
  | .var _ => q
  | .unary _ e => -arith q e
  | .binary .add l r => arith q l + arith q r
  | .binary .sub l r => arith q l - arith q r
  | .binary .mul l r => arith q l * arith q r
  | _ => 0

def isUnsigned (x : String) : Expr → Bool
  | .unary _ _ => false
  | .binary .sub l r => (l.mentions x || r.mentions x) && l.isUnsigned x && r.isUnsigned x
  | .binary _ l r => l.isUnsigned x && r.isUnsigned x
  | _ => true

namespace IsIntegral
variable {x : String} {e : Expr} {q : Rat} {s : Scope} {run : Scope → Expr → Except Error Value}

/-- An expression of integers has a value wherever its name has one. -/
theorem evalWith_eq (h : e.IsIntegral x)
    (hq : e.mentions x = true → s.lookup? x = some (.rational q)) :
    Eval.evalWith run s e = .ok (.rational (e.arith q)) := by
  have hpair {op : BinOp} {l r : Expr} {c : Rat}
      (hq : (Expr.binary op l r).mentions x = true → s.lookup? x = some (.rational q))
      (hl : (l.mentions x = true → s.lookup? x = some (.rational q)) →
        Eval.evalWith run s l = .ok (.rational (l.arith q)))
      (hr : (r.mentions x = true → s.lookup? x = some (.rational q)) →
        Eval.evalWith run s r = .ok (.rational (r.arith q)))
      (h : Value.combine op (.rational (l.arith q)) (.rational (r.arith q)) =
        .ok (.rational c)) : Eval.evalWith run s (.binary op l r) = .ok (.rational c) := by
    have hleft := hl fun hm => hq (Part.mentions (.left op l r) hm)
    have hright := hr fun hm => hq (Part.mentions (.right op l r) hm)
    exact bind_eq_ok.mpr ⟨_, hleft, bind_eq_ok.mpr ⟨_, hright, h⟩⟩
  induction h with
  | number ht hr =>
    rw [Eval.evalWith, Rational.readNumeral_literal ht hr]
    rfl
  | var =>
    rw [Eval.evalWith, hq (beq_self_eq_true x)]
    rfl
  | neg _ ih => exact bind_eq_ok.mpr ⟨_, ih hq, rfl⟩
  | add _ _ ihl ihr | sub _ _ ihl ihr | mul _ _ ihl ihr => exact hpair hq ihl ihr rfl

/-- Without the variable the value is one integer. -/
theorem arith_eq (h : e.IsIntegral x) (hx : e.mentions x = false) (q : Rat) :
    e.arith q = (e.arith (0 : Int) : Int) := by
  induction h with
  | number => simp [arith]
  | var => simp [mentions] at hx
  | neg _ ih => simp [arith, ih hx]
  | add _ _ ihl ihr | sub _ _ ihl ihr | mul _ _ ihl ihr =>
    obtain ⟨hl, hr⟩ := Bool.or_eq_false_iff.mp hx
    simp [arith, ihl hl, ihr hr]

theorem eval_constant (h : e.IsIntegral x) (hx : e.mentions x = false) (s : Scope) :
    s.eval e = .ok (.rational (e.arith (0 : Int) : Int)) := by
  have hq : e.mentions x = true → s.lookup? x = some (.rational 0) := by simp [hx]
  have heval : Eval.evalWith (Eval.evalDeep 999) s e = _ := h.evalWith_eq hq
  rw [h.arith_eq hx] at heval
  exact heval

/-- Without a minus sign nothing is below zero. -/
theorem arith_nonneg (h : e.IsIntegral x) (hx : e.mentions x = false)
    (hsign : e.isUnsigned x = true) : 0 ≤ e.arith (0 : Int) := by
  induction h with
  | number => exact Int.natCast_nonneg _
  | var => simp [mentions] at hx
  | neg => cases hsign
  | sub =>
    obtain ⟨hl, hr⟩ := Bool.or_eq_false_iff.mp hx
    simp [isUnsigned, hl, hr] at hsign
  | add _ _ ihl ihr =>
    obtain ⟨hl, hr⟩ := Bool.or_eq_false_iff.mp hx
    obtain ⟨hsl, hsr⟩ := Bool.and_eq_true_iff.mp hsign
    exact add_nonneg (ihl hl hsl) (ihr hr hsr)
  | mul _ _ ihl ihr =>
    obtain ⟨hl, hr⟩ := Bool.or_eq_false_iff.mp hx
    obtain ⟨hsl, hsr⟩ := Bool.and_eq_true_iff.mp hsign
    exact mul_nonneg (ihl hl hsl) (ihr hr hsr)

/-- What holds of the parts without the parameter holds of all, if it passes from the operands to
each part with the parameter. -/
@[elab_as_elim]
theorem split {P : (e : Expr) → e.IsIntegral x → Prop}
    (constant : ∀ {e : Expr} (h : e.IsIntegral x), e.mentions x = false → P e h)
    (var : P (.var x) .var)
    (neg : ∀ {e : Expr} (h : e.IsIntegral x), e.mentions x = true → P e h →
      P (.unary .neg e) (.neg h))
    (add : ∀ {l r : Expr} (hl : l.IsIntegral x) (hr : r.IsIntegral x),
      (Expr.binary .add l r).mentions x = true → P l hl → P r hr →
      P (.binary .add l r) (.add hl hr))
    (sub : ∀ {l r : Expr} (hl : l.IsIntegral x) (hr : r.IsIntegral x),
      (Expr.binary .sub l r).mentions x = true → P l hl → P r hr →
      P (.binary .sub l r) (.sub hl hr))
    (mul : ∀ {l r : Expr} (hl : l.IsIntegral x) (hr : r.IsIntegral x),
      (Expr.binary .mul l r).mentions x = true → P l hl → P r hr →
      P (.binary .mul l r) (.mul hl hr))
    {e : Expr} (h : e.IsIntegral x) : P e h := by
  have hall {e : Expr} (h : e.IsIntegral x) (hm : e.mentions x = true → P e h) : P e h := by
    cases hmentions : e.mentions x with
    | true => exact hm hmentions
    | false => exact constant h hmentions
  refine hall h fun hm => ?_
  induction h with
  | number => cases hm
  | var => exact var
  | neg h ih => exact neg h hm (ih hm)
  | add hl hr ihl ihr => exact add hl hr hm (hall hl ihl) (hall hr ihr)
  | sub hl hr ihl ihr => exact sub hl hr hm (hall hl ihl) (hall hr ihr)
  | mul hl hr ihl ihr => exact mul hl hr hm (hall hl ihl) (hall hr ihr)

theorem binary {op : BinOp} {l r : Expr} (hop : op.isIntegral = true) (hl : l.IsIntegral x)
    (hr : r.IsIntegral x) : (Expr.binary op l r).IsIntegral x := by
  cases op with
  | add => exact .add hl hr
  | sub => exact .sub hl hr
  | mul => exact .mul hl hr
  | div | mod | pow | matMul | other => cases hop

theorem minuses (h : e.IsIntegral x) (m : Nat) : (Formula.minuses m e).IsIntegral x := by
  induction m with
  | zero => exact h
  | succ m ih => exact .neg ih

end IsIntegral

structure Chain.IsIntegral (x : String) (c : Chain) : Prop where
  first : c.first.IsIntegral x
  more : ∀ o ∈ c.more, o.1.isIntegral = true ∧ o.2.IsIntegral x

namespace Chain
variable {x : String} {c l r : Chain}

/-- However the operands are grouped, the signs are the same. -/
theorem isIntegral_regroup {pre : Expr → Expr} {t : Expr} {ops : List (BinOp × Expr)}
    (hpre : ∀ t : Expr, t.IsIntegral x → (pre t).IsIntegral x) (ht : t.IsIntegral x)
    (hops : ∀ o ∈ ops, o.1.isIntegral = true ∧ o.2.IsIntegral x) :
    (regroup pre t ops).IsIntegral x := by
  induction ops generalizing pre t with
  | nil => exact hpre t ht
  | cons o ops ih =>
    obtain ⟨⟨hop, ho⟩, hops⟩ := List.forall_mem_cons.mp hops
    rw [regroup]
    split
    · exact ih (fun _ h => .binary hop (hpre t ht) h) ho hops
    · exact ih hpre (.binary hop ht ho) hops

theorem IsIntegral.whole (h : c.IsIntegral x) : c.whole.IsIntegral x :=
  isIntegral_regroup (fun _ h => h) h.first h.more

theorem IsIntegral.join {op : BinOp} (hl : l.IsIntegral x) (hop : op.isIntegral = true)
    (hr : r.IsIntegral x) : (l.join op r).IsIntegral x where
  first := hl.first
  more := List.forall_mem_append.mpr ⟨hl.more, List.forall_mem_cons.mpr ⟨⟨hop, hr.first⟩, hr.more⟩⟩

end Chain
end Expr

namespace Formula
variable {x : String}

def isIntegral : Formula → Bool
  | fraction _ _ | power _ => false
  | number _ | name => true
  | negative _ a | parens a => a.isIntegral
  | sum _ l r | product l r => l.isIntegral && r.isIntegral

theorem isIntegral_chain {f : Formula} (h : f.isIntegral = true) (hread : f.isReadable = true)
    (m : Nat) : (f.chain x m).IsIntegral x := by
  induction f generalizing m with
  | number n =>
    have hn : Rational.isLong n = false := by simpa [isReadable] using hread
    have hnumber := Expr.IsIntegral.number (x := x) (isLiteral_toString n)
      (Rational.readable_toString hn)
    exact ⟨hnumber.minuses m, List.forall_mem_nil _⟩
  | fraction | power => cases h
  | name => exact ⟨Expr.IsIntegral.var.minuses m, List.forall_mem_nil _⟩
  | negative _ a ih => exact ih h hread (m + 1)
  | parens a ih => exact ⟨(ih h hread 0).whole.minuses m, List.forall_mem_nil _⟩
  | sum minus l r ihl ihr =>
    obtain ⟨hl, hr⟩ := Bool.and_eq_true_iff.mp h
    obtain ⟨hreadl, hreadr⟩ := Bool.and_eq_true_iff.mp hread
    refine (ihl hl hreadl m).join ?_ (ihr hr hreadr 0)
    cases minus <;> rfl
  | product l r ihl ihr =>
    obtain ⟨hl, hr⟩ := Bool.and_eq_true_iff.mp h
    obtain ⟨hreadl, hreadr⟩ := Bool.and_eq_true_iff.mp hread
    exact (ihl hl hreadl m).join rfl (ihr hr hreadr 0)

/-- A formula without fractions and powers is such an expression, whatever its text is read as. -/
theorem isIntegral_reading {f : Formula} (h : f.isIntegral = true) (hread : f.isReadable = true) :
    (f.reading x).IsIntegral x :=
  (isIntegral_chain h hread 0).whole

end Formula

end Reckoner
