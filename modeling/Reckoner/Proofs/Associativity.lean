import Mathlib
import Reckoner.Proofs.Kinds

namespace Reckoner

namespace RatMatrix

/-- The entries of a matrix that is built are those that it was built from. -/
theorem get_build {h w : Nat} {f : Nat → Nat → Rat} (hh : 0 < h) (hw : 0 < w) {i j : Nat}
    (hi : i < h) (hj : j < w) : (build h w f hh hw).get i j = f i j := by
  simp [get, build, table, hi, hj]

theorem build_congr {h w : Nat} {f g : Nat → Nat → Rat} {hh : 0 < h} {hw : 0 < w}
    (hfg : ∀ i < h, ∀ j < w, f i j = g i j) : build h w f hh hw = build h w g hh hw := by
  have htable : table h w f = table h w g := by
    apply List.map_congr_left
    intro i hi
    apply List.map_congr_left
    intro j hj
    exact hfg i (List.mem_range.mp hi) j (List.mem_range.mp hj)
  simp only [build, htable]

theorem pointwise_assoc {f g : Rat → Rat → Rat} (hfg : ∀ x y z, f x (g y z) = g (f x y) z)
    {a b : RatMatrix} (c : RatMatrix) (hab : a.sameShape b = true) :
    a.pointwise f (b.pointwise g c) = (a.pointwise f b).pointwise g c := by
  simp only [sameShape, Bool.and_eq_true, beq_iff_eq] at hab
  apply build_congr
  intro i hi j hj
  rw [pointwise, like, get_build _ _ (hab.1 ▸ hi) (hab.2 ▸ hj), hfg, pointwise, like,
    get_build _ _ hi hj]

theorem dot_eq_sum (a b : RatMatrix) (i j : Nat) :
    dot a b i j = ∑ k ∈ Finset.range a.width, a.get i k * b.get k j := by
  unfold dot
  induction a.width with
  | zero => rfl
  | succ n ih =>
    rw [List.range_succ, List.foldl_append, ih, Finset.sum_range_succ]
    rfl

/-- Products of rows and columns do not depend on how they are grouped. -/
theorem mul_regroup {a b : RatMatrix} (c : RatMatrix) (hab : a.width = b.height) :
    a.mul (b.mul c) = (a.mul b).mul c := by
  apply build_congr
  intro i hi j hj
  have hleft (k : Nat) (hk : k ∈ Finset.range a.width) :
      a.get i k * (b.mul c).get k j =
        ∑ l ∈ Finset.range b.width, a.get i k * b.get k l * c.get l j := by
    have hentry : (b.mul c).get k j = dot b c k j :=
      get_build _ _ (hab ▸ Finset.mem_range.mp hk) hj
    rw [hentry, dot_eq_sum, Finset.mul_sum]
    exact Finset.sum_congr rfl fun l _ => (mul_assoc _ _ _).symm
  have hright (l : Nat) (hl : l ∈ Finset.range b.width) :
      (a.mul b).get i l * c.get l j =
        ∑ k ∈ Finset.range a.width, a.get i k * b.get k l * c.get l j := by
    have hentry : (a.mul b).get i l = dot a b i l := get_build _ _ hi (Finset.mem_range.mp hl)
    rw [hentry, dot_eq_sum, Finset.sum_mul]
  rw [dot_eq_sum, dot_eq_sum, Finset.sum_congr rfl hleft, Finset.sum_comm]
  exact (Finset.sum_congr rfl hright).symm

end RatMatrix

namespace GaussRat

theorem ext {z w : GaussRat} (hre : z.re = w.re) (him : z.im = w.im) : z = w := by
  cases z
  cases w
  simp_all

def quotient (z w : GaussRat) : GaussRat :=
  ⟨(z.re * w.re + z.im * w.im) / w.normSq, (z.im * w.re - z.re * w.im) / w.normSq⟩

theorem div?_eq (z w : GaussRat) :
    z.div? w = if w.normSq = 0 then none else some (z.quotient w) := rfl

theorem add_regroup (u v w : GaussRat) : u.add (v.add w) = (u.add v).add w := by
  apply ext <;> simp only [add] <;> ring

theorem add_sub_regroup (u v w : GaussRat) : u.add (v.sub w) = (u.add v).sub w := by
  apply ext <;> simp only [add, sub] <;> ring

theorem mul_regroup (u v w : GaussRat) : u.mul (v.mul w) = (u.mul v).mul w := by
  apply ext <;> simp only [mul] <;> ring

theorem mul_quotient_regroup (u v w : GaussRat) :
    u.mul (v.quotient w) = (u.mul v).quotient w := by
  apply ext <;> simp only [mul, quotient] <;> ring

end GaussRat

namespace Value

def isNumber : Value → Bool
  | rational _ | complex _ => true
  | _ => false

/-- The parts of a number, and whether it is a rational. -/
inductive IsGauss : Bool → GaussRat → Value → Prop where
  | rational {z : GaussRat} {q : Rat} (hre : z.re = q) (him : z.im = 0) :
      IsGauss true z (rational q)
  | complex {z w : GaussRat} (hre : z.re = w.re) (him : z.im = w.im) : IsGauss false z (complex w)

theorem exists_isGauss {v : Value} (h : v.isNumber = true) : ∃ r z, IsGauss r z v := by
  cases v with
  | rational q => exact ⟨true, ⟨q, 0⟩, .rational rfl rfl⟩
  | complex z => exact ⟨false, z, .complex rfl rfl⟩
  | matrix | function | builtin | plain => cases h

/-- A number is known by its parts and whether it is a rational. -/
theorem IsGauss.unique {r : Bool} {z : GaussRat} {v w : Value} (hv : IsGauss r z v)
    (hw : IsGauss r z w) : v = w := by
  cases hv with
  | rational hre _ =>
    cases hw with
    | rational hre' _ => rw [← hre, ← hre']
  | complex hre him =>
    cases hw with
    | complex hre' him' =>
      rw [GaussRat.ext (hre.symm.trans hre') (him.symm.trans him')]

def onParts : BinOp → GaussRat → GaussRat → GaussRat
  | .add => GaussRat.add
  | .sub => GaussRat.sub
  | .mul => GaussRat.mul
  | .div => GaussRat.quotient
  | _ => fun z _ => z

/-- Right operands that a sign takes. -/
def Admits : BinOp → GaussRat → Prop
  | .add, _ | .sub, _ | .mul, _ => True
  | .div, w => w.normSq ≠ 0
  | _, _ => False

section Parts
variable {r t : Bool} {z w : GaussRat} {a b : Value}

theorem div_isGauss (ha : IsGauss r z a) (hb : IsGauss t w b) (hw : w.normSq ≠ 0) :
    ∃ v, div a b = .ok v ∧ IsGauss (r && t) (z.quotient w) v := by
  have hreal (hre : w.im = 0) : w.re ≠ 0 ∧ w.normSq = w.re * w.re := by
    have hsq : w.normSq = w.re * w.re := by simp [GaussRat.normSq, hre]
    exact ⟨fun h => hw (by simp [hsq, h]), hsq⟩
  cases hb with
  | rational hre' him' =>
    obtain ⟨hzero, hsq⟩ := hreal him'
    subst hre'
    cases ha with
    | rational hre him =>
      subst hre
      refine ⟨_, if_neg hzero, .rational ?_ ?_⟩
      · simp only [GaussRat.quotient, him, hsq]
        field_simp
        ring
      · simp [GaussRat.quotient, him, him']
    | complex hre him =>
      obtain rfl := GaussRat.ext hre him
      refine ⟨_, if_neg hzero, .complex ?_ ?_⟩ <;>
        simp only [GaussRat.quotient, him', hsq] <;> field_simp <;> ring
  | complex hre' him' =>
    obtain rfl := GaussRat.ext hre' him'
    cases ha with
    | rational hre him =>
      obtain rfl : z = GaussRat.ofRat _ := GaussRat.ext hre him
      exact ⟨_, by simp [div, divComplex, GaussRat.div?_eq, hw], .complex rfl rfl⟩
    | complex hre him =>
      obtain rfl := GaussRat.ext hre him
      exact ⟨_, by simp [div, divComplex, GaussRat.div?_eq, hw], .complex rfl rfl⟩

/-- The signs work on the parts of numbers, and the result is a rational if both operands are. -/
theorem combine_isGauss {op : BinOp} (ha : IsGauss r z a) (hb : IsGauss t w b)
    (hw : Admits op w) : ∃ v, combine op a b = .ok v ∧ IsGauss (r && t) (onParts op z w) v := by
  cases op with
  | add | sub | mul =>
    cases ha with
    | rational hre him | complex hre him =>
      cases hb with
      | rational hre' him' | complex hre' him' =>
        refine ⟨_, rfl, ?_⟩
        constructor <;> simp [onParts, GaussRat.add, GaussRat.sub, GaussRat.mul, GaussRat.ofRat,
          hre, him, hre', him']
  | div => exact div_isGauss ha hb hw
  | mod | pow | matMul | other => exact hw.elim

theorem normSq_ne_zero {v : Value} (ha : IsGauss r z a) (hb : IsGauss t w b)
    (h : div a b = .ok v) : w.normSq ≠ 0 := by
  intro hw
  cases hb with
  | rational hre' him' =>
    have hzero : w.re = 0 := by simpa [GaussRat.normSq, him'] using hw
    rw [← hre', hzero] at h
    cases ha <;> cases h
  | complex hre' him' =>
    obtain rfl := GaussRat.ext hre' him'
    cases ha <;> simp [div, divComplex, GaussRat.div?_eq, hw] at h

end Parts

def onEntries : BinOp → Rat → Rat → Rat
  | .sub => fun x y => x - y
  | _ => fun x y => x + y

section Operands
variable {op : BinOp} {a b v : Value}

theorem combine_matrices (hop : op = .add ∨ op = .sub) (m n : RatMatrix) :
    combine op (matrix m) (matrix n) =
      if m.sameShape n then .ok (matrix (m.pointwise (onEntries op) n))
      else .error (if op = .add then .sumShape else .differenceShape) := by
  rcases hop with rfl | rfl <;> rfl

/-- A sum has a value for two numbers, and for two matrices of one shape. -/
theorem sum_cases (hop : op = .add ∨ op = .sub) (hb : b.isPlain = false)
    (h : combine op a b = .ok v) :
    (a.isNumber = true ∧ b.isNumber = true) ∨
    ∃ m n, a = matrix m ∧ b = matrix n ∧ m.sameShape n = true ∧
      v = matrix (m.pointwise (onEntries op) n) := by
  cases a with
  | rational | complex =>
    cases b with
    | rational | complex => exact .inl ⟨rfl, rfl⟩
    | plain => cases hb
    | matrix | function | builtin => rcases hop with rfl | rfl <;> cases h
  | matrix m =>
    cases b with
    | matrix n =>
      rw [combine_matrices hop] at h
      split at h
      next hshape =>
        cases h
        exact .inr ⟨m, n, rfl, rfl, hshape, rfl⟩
      · cases h
    | _ => rcases hop with rfl | rfl <;> cases h
  | plain =>
    cases b with
    | plain => cases hb
    | _ => rcases hop with rfl | rfl <;> cases h
  | function | builtin => cases b <;> rcases hop with rfl | rfl <;> cases h

/-- A product of rows and columns has a value for two matrices that fit. -/
theorem starStar_cases (h : starStar a b = .ok v) :
    ∃ m n, a = matrix m ∧ b = matrix n ∧ m.width = n.height ∧ v = matrix (m.mul n) := by
  cases a with
  | matrix m =>
    cases b with
    | matrix n =>
      simp only [starStar, matMul, RatMatrix.mul?] at h
      split at h
      · cases h
      next k hk =>
        split at hk
        next hfit =>
          cases hk
          cases h
          exact ⟨m, n, rfl, rfl, hfit, rfl⟩
        · cases hk
    | _ => cases h
  | _ => cases b <;> cases h

end Operands
end Value

/-- Pairs of signs where `a op (b o c)` may be read as `(a op b) o c`, some of them only if all
values are numbers. -/
def BinOp.associates (numbers : Bool) : BinOp → BinOp → Bool
  | .add, .add | .add, .sub | .matMul, .matMul => true
  | .mul, .mul | .mul, .div => numbers
  | _, _ => false

namespace Value

/-- Values that expressions are about: numbers, or all but plain data. -/
def isOperand (numbers : Bool) (v : Value) : Bool :=
  if numbers then v.isNumber else !v.isPlain

theorem not_isPlain_of_isOperand {numbers : Bool} {v : Value} (h : v.isOperand numbers = true) :
    v.isPlain = false := by
  cases numbers <;> cases v <;> simp_all [isOperand, isNumber, isPlain]

variable {op o : BinOp} {a b c w v : Value}

/-- Plain data come from nothing but plain data on the left. -/
theorem combine_isPlain (ha : a.isPlain = false) (h : combine op a b = .ok v) :
    v.isPlain = false := by
  rcases combine_gives op a b v h with hnumeric | ⟨-, hplain, -⟩
  · cases v <;> first | rfl | cases hnumeric
  · rw [ha] at hplain
    cases hplain

theorem combine_isNumber (ha : a.isNumber = true) (hb : b.isNumber = true)
    (h : combine op a b = .ok v) : v.isNumber = true := by
  have hgives : Outcome.Gives (fun v => v.isNumber = true) (combine op a b) := by
    have hr (q : Rat) : (rational q).isNumber = true := rfl
    have hc (z : GaussRat) : (complex z).isNumber = true := rfl
    cases a with
    | rational | complex =>
      cases b with
      | rational | complex =>
        cases op with
        | other s =>
          rw [combine]
          split <;> simp [starStar]
        | _ =>
          simp [combine, add, sub, star, mul, div, remainder, starStar, power, number?, hr, hc]
      | matrix | function | builtin | plain => cases hb
    | matrix | function | builtin | plain => cases ha
  exact hgives v h

/-- For numbers the grouping does not matter if it does not for their parts. -/
theorem combine_regroup_numbers (hop : ∀ z, Admits op z)
    (ho : ∀ {r t z w v} {a b : Value}, IsGauss r z a → IsGauss t w b → combine o a b = .ok v →
      Admits o w)
    (hparts : ∀ x y z, onParts op x (onParts o y z) = onParts o (onParts op x y) z)
    (ha : a.isNumber = true) (hb : b.isNumber = true) (hc : c.isNumber = true)
    (h : combine o b c = .ok w) (h' : combine op a w = .ok v) :
    ∃ u, combine op a b = .ok u ∧ combine o u c = .ok v := by
  obtain ⟨ra, x, hx⟩ := exists_isGauss ha
  obtain ⟨rb, y, hy⟩ := exists_isGauss hb
  obtain ⟨rc, z, hz⟩ := exists_isGauss hc
  have hdom := ho hy hz h
  obtain ⟨w', hw', hinner⟩ := combine_isGauss hy hz hdom
  cases h.symm.trans hw'
  obtain ⟨v', hv', houter⟩ := combine_isGauss hx hinner (hop _)
  cases h'.symm.trans hv'
  obtain ⟨u, hu, hleft⟩ := combine_isGauss hx hy (hop _)
  obtain ⟨v'', hv'', hright⟩ := combine_isGauss hleft hz hdom
  rw [← hparts, Bool.and_assoc] at hright
  exact ⟨u, hu, hv''.trans (congrArg Except.ok (hright.unique houter))⟩

/-- Numbers and matrices may be added in any grouping, where the sums have values at all. -/
theorem combine_regroup_sums (ho : o = .add ∨ o = .sub) (hb : b.isPlain = false)
    (hc : c.isPlain = false) (h : combine o b c = .ok w) (h' : combine .add a w = .ok v) :
    ∃ u, combine .add a b = .ok u ∧ combine o u c = .ok v := by
  have hw : w.isPlain = false := combine_isPlain hb h
  rcases sum_cases ho hc h with ⟨hb', hc'⟩ | ⟨m, n, rfl, rfl, hmn, rfl⟩
  · rcases sum_cases (.inl rfl) hw h' with ⟨ha', -⟩ | ⟨_, _, -, rfl, -⟩
    · rcases ho with rfl | rfl
      · exact combine_regroup_numbers (fun _ => trivial) (fun _ _ _ => trivial)
          GaussRat.add_regroup ha' hb' hc' h h'
      · exact combine_regroup_numbers (fun _ => trivial) (fun _ _ _ => trivial)
          GaussRat.add_sub_regroup ha' hb' hc' h h'
    · cases combine_isNumber hb' hc' h
  · rcases sum_cases (.inl rfl) hw h' with ⟨-, hw'⟩ | ⟨k, _, rfl, hk, hkm, rfl⟩
    · cases hw'
    · cases hk
      have hshape : k.sameShape m = true := hkm
      have hshape' : (k.pointwise (onEntries .add) m).sameShape n = true := by
        simp only [RatMatrix.sameShape, Bool.and_eq_true, beq_iff_eq] at hshape hmn ⊢
        exact ⟨hshape.1.trans hmn.1, hshape.2.trans hmn.2⟩
      have hentries (x y z : Rat) : onEntries .add x (onEntries o y z) =
          onEntries o (onEntries .add x y) z := by
        rcases ho with rfl | rfl <;> simp only [onEntries] <;> ring
      refine ⟨_, (combine_matrices (.inl rfl) k m).trans (if_pos hshape), ?_⟩
      rw [combine_matrices ho, if_pos hshape', RatMatrix.pointwise_assoc hentries n hshape]

theorem combine_regroup_products (h : starStar b c = .ok w) (h' : starStar a w = .ok v) :
    ∃ u, starStar a b = .ok u ∧ starStar u c = .ok v := by
  obtain ⟨m, n, rfl, rfl, hmn, rfl⟩ := starStar_cases h
  obtain ⟨k, _, rfl, hk, hkm, rfl⟩ := starStar_cases h'
  cases hk
  have hfit : k.width = m.height := hkm
  have hfit' : (k.mul m).width = n.height := hmn
  refine ⟨matrix (k.mul m), ?_, ?_⟩
  · simp [starStar, matMul, RatMatrix.mul?, hfit]
  · simp [starStar, matMul, RatMatrix.mul?, hfit', RatMatrix.mul_regroup n hfit]

/-- The grouping does not matter for signs that associate. -/
theorem combine_assoc {numbers : Bool} (hassoc : op.associates numbers o = true)
    (ha : a.isOperand numbers = true) (hb : b.isOperand numbers = true)
    (hc : c.isOperand numbers = true) (h : combine o b c = .ok w) (h' : combine op a w = .ok v) :
    ∃ u, combine op a b = .ok u ∧ combine o u c = .ok v := by
  have hb' := not_isPlain_of_isOperand hb
  have hc' := not_isPlain_of_isOperand hc
  unfold BinOp.associates at hassoc
  split at hassoc
  · exact combine_regroup_sums (.inl rfl) hb' hc' h h'
  · exact combine_regroup_sums (.inr rfl) hb' hc' h h'
  · exact combine_regroup_products h h'
  · subst hassoc
    exact combine_regroup_numbers (fun _ => trivial) (fun _ _ _ => trivial)
      GaussRat.mul_regroup ha hb hc h h'
  · subst hassoc
    exact combine_regroup_numbers (fun _ => trivial) normSq_ne_zero
      GaussRat.mul_quotient_regroup ha hb hc h h'
  · cases hassoc

theorem combine_isOperand {numbers : Bool} (ha : a.isOperand numbers = true)
    (hb : b.isOperand numbers = true) (h : combine op a b = .ok v) :
    v.isOperand numbers = true := by
  cases numbers with
  | true => exact combine_isNumber ha hb h
  | false =>
    have hplain := combine_isPlain (not_isPlain_of_isOperand ha) h
    simp [isOperand, hplain]

theorem negate_isOperand {numbers : Bool} {op : UnOp} (ha : a.isOperand numbers = true)
    (h : Eval.negate op a = .ok v) : v.isOperand numbers = true := by
  cases op with
  | other s => cases h
  | neg =>
    cases a with
    | rational | complex =>
      cases h
      cases numbers <;> rfl
    | matrix | function | builtin => cases h
    | plain => cases not_isPlain_of_isOperand ha

end Value
end Reckoner
