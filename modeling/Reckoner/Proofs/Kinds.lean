import Reckoner.Proofs.Inlining

namespace Reckoner
open Outcome
open Inline (isNumeric)

namespace Value

def isPlain : Value → Bool
  | plain _ => true
  | _ => false

/-- The values that a sign may give: numeric ones, and plain data for plain data. -/
def Results (a b v : Value) : Prop :=
  isNumeric v = true ∨ (v.isPlain = true ∧ a.isPlain = true ∧ b.isPlain = true)

section Results
variable {a b : Value}

@[simp]
theorem results_rational (q : Rat) : Results a b (rational q) := .inl rfl

@[simp]
theorem results_complex (z : GaussRat) : Results a b (complex z) := .inl rfl

@[simp]
theorem results_matrix (m : RatMatrix) : Results a b (matrix m) := .inl rfl

@[simp]
theorem results_plain (c d e : Datum) : Results (plain c) (plain d) (plain e) :=
  .inr ⟨rfl, rfl, rfl⟩

end Results

section Parts
variable {P : Value → Prop}

/-- Each way to compute gives values of one kind only. -/
@[simp]
theorem gives_divRational (hP : ∀ q, P (rational q)) (p q : Rat) : Gives P (divRational p q) := by
  unfold divRational
  split <;> simp [hP]

@[simp]
theorem gives_divComplex (hP : ∀ z, P (complex z)) (w z : GaussRat) :
    Gives P (divComplex w z) := by
  unfold divComplex
  split <;> simp [hP]

@[simp]
theorem gives_divParts (hP : ∀ z, P (complex z)) (w : GaussRat) (q : Rat) :
    Gives P (divParts w q) := by
  unfold divParts
  split <;> simp [hP]

@[simp]
theorem gives_modRational (hP : ∀ q, P (rational q)) (p q : Rat) : Gives P (modRational p q) := by
  unfold modRational
  split <;> simp [hP]

@[simp]
theorem gives_powRational (hP : ∀ q, P (rational q)) (p q : Rat) : Gives P (powRational p q) := by
  unfold powRational powInteger
  split
  · split <;> simp [hP]
  · simp [hP]

@[simp]
theorem gives_powMatrix (hP : ∀ m, P (matrix m)) (m : RatMatrix) (n : Int) :
    Gives P (powMatrix m n) := by
  unfold powMatrix
  split
  · exact gives_error _
  · split <;> simp [hP]

end Parts

theorem add_gives (a b : Value) : Gives (Results a b) (add a b) := by
  unfold add
  split <;> try split
  all_goals simp

theorem sub_gives (a b : Value) : Gives (Results a b) (sub a b) := by
  unfold sub
  split <;> try split
  all_goals simp

theorem mul_gives (a b : Value) : Gives (Results a b) (mul a b) := by
  unfold mul
  split <;> try split
  all_goals simp

theorem div_gives (a b : Value) : Gives (Results a b) (div a b) := by
  unfold div
  split <;> try split
  all_goals try split
  all_goals simp

theorem star_gives (a b : Value) : Gives (Results a b) (star a b) := by
  unfold star
  split
  · split
    · simp
    · split <;> simp
  · exact mul_gives a b

theorem remainder_gives (a b : Value) : Gives (Results a b) (remainder a b) := by
  unfold remainder
  split <;> try split
  all_goals simp

theorem matMul_gives (a b : Value) : Gives (Results a b) (matMul a b) := by
  unfold matMul
  split <;> try split
  all_goals simp

theorem starStar_gives (a b : Value) : Gives (Results a b) (starStar a b) := by
  unfold starStar
  split
  · exact matMul_gives _ _
  · exact gives_error _

theorem power_gives (a b : Value) : Gives (Results a b) (power a b) := by
  unfold power
  split <;> try split
  all_goals simp

/-- A sign gives a numeric value, or plain data if it is given nothing else. -/
theorem combine_gives (op : BinOp) (a b : Value) : Gives (Results a b) (combine op a b) := by
  cases op with
  | add => exact add_gives a b
  | sub => exact sub_gives a b
  | mul => exact star_gives a b
  | div => exact div_gives a b
  | mod => exact remainder_gives a b
  | matMul => exact starStar_gives a b
  | pow => exact power_gives a b
  | other s =>
    rw [combine]
    split
    · exact starStar_gives a b
    · exact gives_error _

/-- A function is no operand of a sign, so neither its body nor its name can make a difference
there. -/
def outline : Value → Value
  | function _ => function ⟨"", .absent, none⟩
  | builtin _ _ => builtin .sin .session
  | v => v

/-- Signs do not look into functions, and builtin functions do not either. -/
theorem combine_outline (op : BinOp) (a b : Value) :
    combine op a.outline b.outline = combine op a b := by
  cases op <;> cases a <;> cases b <;> rfl

end Value

namespace Eval

theorem negate_gives (op : UnOp) (v : Value) : Gives (Value.Results v v) (negate op v) := by
  cases op with
  | other s => exact gives_error _
  | neg => cases v <;> simp [negate, Value.neg]

theorem negate_outline (op : UnOp) (v : Value) : negate op v.outline = negate op v := by
  cases op <;> cases v <;> rfl

theorem element_outline (v : Value) : element v.outline = element v := by
  cases v <;> rfl

end Eval

namespace Builtin

@[simp]
theorem ofReal_gives (x : Float) : Gives (isNumeric · = true) (ofReal x) := by
  simp [ofReal, isNumeric]

@[simp]
theorem ofComplex_gives (z : Double.Complex) : Gives (isNumeric · = true) (ofComplex z) := by
  have h (re im : Rat) :
      isNumeric (if im = 0 then .rational re else .complex ⟨re, im⟩) = true := by
    split <;> rfl
  simp [ofComplex, h]

@[simp]
theorem absolute_gives (v : Value) : Gives (isNumeric · = true) (absolute v) := by
  simp [absolute]

theorem normOf_gives (v : Value) : Gives (isNumeric · = true) (normOf v) := by
  unfold normOf matrixNorm
  split <;> try split
  all_goals simp

theorem inverseOf_gives (v : Value) : Gives (isNumeric · = true) (inverseOf v) := by
  unfold inverseOf
  split <;> try split
  all_goals try split
  all_goals simp [isNumeric]

theorem rounded_gives (round : Rat → Int) (v : Value) :
    Gives (isNumeric · = true) (rounded round v) := by
  have h (z : Double.Complex) : Gives (isNumeric · = true)
      (if z.im != 0.0 then .error Error.realOnly
        else if z.re.isNaN then .error .notANumberInteger
        else if Double.isInfinite z.re then .error .infiniteInteger
        else .ok (.rational (round (Double.value z.re)))) := by
    repeat' split
    all_goals simp [isNumeric]
  exact gives_bind.mpr fun z _ => h z

/-- The builtin functions give numeric values, whatever they are given. -/
theorem apply_gives (b : Builtin) (mode : AngleMode) (v : Value) :
    Gives (isNumeric · = true) (b.apply mode v) := by
  cases b with
  | sin | cos | tan | exp | log | sqrt => simp [apply]
  | norm => exact normOf_gives v
  | inv => exact inverseOf_gives v
  | abs => exact absolute_gives v
  | floor | ceil => exact rounded_gives _ v

theorem apply_outline (b : Builtin) (mode : AngleMode) (v : Value) :
    b.apply mode v.outline = b.apply mode v := by
  cases b <;> cases v <;> rfl

end Builtin
end Reckoner
