import Mathlib
import Reckoner.Proofs.Associativity
import Reckoner.Proofs.Parentheses
import Reckoner.Proofs.Reachable

namespace Reckoner
namespace Expr

inductive IsOver (numbers : Bool) (s : Scope) : Expr → Prop where
  | number (t : String) : IsOver numbers s (.number t)
  | var {x : String} (h : ∀ v, s.lookup? x = some v → v.isOperand numbers = true) :
      IsOver numbers s (.var x)
  | imaginary : IsOver numbers s .imaginary
  | unary (op : UnOp) {e : Expr} (he : IsOver numbers s e) : IsOver numbers s (.unary op e)
  | binary (op : BinOp) {l r : Expr} (hl : IsOver numbers s l) (hr : IsOver numbers s r) :
      IsOver numbers s (.binary op l r)
  | matrix {rows : List (List Expr)} (hn : numbers = false)
      (h : ∀ r ∈ rows, ∀ e ∈ r, IsOver numbers s e) : IsOver numbers s (.matrix rows)

section Values
open Eval Outcome
variable {numbers : Bool} {n : Nat} {s : Scope} {run : Scope → Expr → Except Error Value}

/-- Operands give operands, so signs that associate for those do so within an expression. -/
theorem IsOver.gives {e : Expr} (h : e.IsOver numbers s) :
    Gives (fun v => v.isOperand numbers = true) (evalWith run s e) := by
  intro v hv
  induction h generalizing v with
  | number t =>
    obtain ⟨q, -, rfl⟩ := map_eq_ok.mp hv
    cases numbers <;> rfl
  | @var x hx =>
    rw [evalWith] at hv
    split at hv
    · cases hv
    next w hw =>
      cases hv
      exact hx v hw
  | imaginary =>
    cases hv
    cases numbers <;> rfl
  | unary op _ ih =>
    obtain ⟨a, ha, hneg⟩ := bind_eq_ok.mp hv
    exact Value.negate_isOperand (ih a ha) hneg
  | binary op _ _ ihl ihr =>
    obtain ⟨a, ha, hb⟩ := bind_eq_ok.mp hv
    obtain ⟨b, hb, hcombine⟩ := bind_eq_ok.mp hb
    exact Value.combine_isOperand (ihl a ha) (ihr b hb) hcombine
  | matrix hn =>
    subst hn
    obtain ⟨rows, -, hrows⟩ := bind_eq_ok.mp hv
    unfold ofRows at hrows
    split at hrows <;> cases hrows
    rfl

theorem evalRow_gives {f : Expr → Expr} {r : List Expr}
    (h : ∀ e ∈ r, Gives (fun v => evalWith run s (f e) = .ok v) (evalWith run s e)) :
    Gives (fun vs => evalRow run s (r.map f) = .ok vs) (evalRow run s r) := by
  induction r with
  | nil =>
    intro vs hvs
    cases hvs
    rfl
  | cons e es ih =>
    obtain ⟨he, hes⟩ := List.forall_mem_cons.mp h
    intro vs hvs
    obtain ⟨v, hv, hmore⟩ := bind_eq_ok.mp hvs
    obtain ⟨ws, hws, hall⟩ := bind_eq_ok.mp hmore
    exact bind_eq_ok.mpr ⟨v, he v hv, bind_eq_ok.mpr ⟨ws, ih hes ws hws, hall⟩⟩

theorem evalRows_gives {f : Expr → Expr} {rows : List (List Expr)}
    (h : ∀ r ∈ rows, ∀ e ∈ r, Gives (fun v => evalWith run s (f e) = .ok v) (evalWith run s e)) :
    Gives (fun qs => evalRows run s (rows.map (List.map f)) = .ok qs) (evalRows run s rows) := by
  induction rows with
  | nil =>
    intro qs hqs
    cases hqs
    rfl
  | cons r rs ih =>
    obtain ⟨hr, hrs⟩ := List.forall_mem_cons.mp h
    intro qs hqs
    obtain ⟨vs, hvs, hmore⟩ := bind_eq_ok.mp hqs
    obtain ⟨row, hrow, hmore⟩ := bind_eq_ok.mp hmore
    obtain ⟨rows, hrows, hall⟩ := bind_eq_ok.mp hmore
    refine bind_eq_ok.mpr ⟨vs, evalRow_gives hr vs hvs, bind_eq_ok.mpr ⟨row, hrow, ?_⟩⟩
    exact bind_eq_ok.mpr ⟨rows, ih hrs rows hrows, hall⟩

/-- The second expression has the value of the first, if that has one. -/
def Refines (numbers : Bool) (run : Scope → Expr → Except Error Value) (s : Scope)
    (a b : Expr) : Prop :=
  a.IsOver numbers s →
    b.IsOver numbers s ∧ Gives (fun v => evalWith run s b = .ok v) (evalWith run s a)

theorem Refines.binary {a a' b b' : Expr} (op : BinOp) (h : Refines numbers run s a a')
    (h' : Refines numbers run s b b') :
    Refines numbers run s (.binary op a b) (.binary op a' b') := by
  intro hab
  cases hab with
  | binary _ ha hb =>
    obtain ⟨ha', hleft⟩ := h ha
    obtain ⟨hb', hright⟩ := h' hb
    refine ⟨.binary op ha' hb', fun v hv => ?_⟩
    obtain ⟨x, hx, hmore⟩ := bind_eq_ok.mp hv
    obtain ⟨y, hy, hcombine⟩ := bind_eq_ok.mp hmore
    exact bind_eq_ok.mpr ⟨x, hleft x hx, bind_eq_ok.mpr ⟨y, hright y hy, hcombine⟩⟩

/-- Regrouping signs that associate loses no value, but may add one. -/
theorem refines_assoc {op o : BinOp} (h : op.associates numbers o = true) (a b c : Expr) :
    Refines numbers run s (.binary op a (.binary o b c)) (.binary o (.binary op a b) c) := by
  intro habc
  cases habc with
  | binary _ ha hbc =>
    cases hbc with
    | binary _ hb hc =>
      refine ⟨.binary o (.binary op ha hb) hc, fun v hv => ?_⟩
      obtain ⟨x, hx, hmore⟩ := bind_eq_ok.mp hv
      obtain ⟨w, hw, houter⟩ := bind_eq_ok.mp hmore
      obtain ⟨y, hy, hmore⟩ := bind_eq_ok.mp hw
      obtain ⟨z, hz, hinner⟩ := bind_eq_ok.mp hmore
      obtain ⟨u, hu, hv'⟩ :=
        Value.combine_assoc h (ha.gives x hx) (hb.gives y hy) (hc.gives z hz) hinner houter
      have hleft : evalWith run s (.binary op a b) = .ok u :=
        bind_eq_ok.mpr ⟨x, hx, bind_eq_ok.mpr ⟨y, hy, hu⟩⟩
      exact bind_eq_ok.mpr ⟨u, hleft, bind_eq_ok.mpr ⟨z, hz, hv'⟩⟩

theorem regroups_refines : Regroups (BinOp.associates numbers) (Refines numbers run s) where
  refl := fun a ha => ⟨ha, fun v hv => hv⟩
  trans := by
    intro a b c h h' ha
    obtain ⟨hb, hab⟩ := h ha
    obtain ⟨hc, hbc⟩ := h' hb
    exact ⟨hc, fun v hv => hbc v (hab v hv)⟩
  unary := by
    intro a b op h hop
    cases hop with
    | unary _ ha =>
      obtain ⟨hb, hab⟩ := h ha
      refine ⟨.unary op hb, fun v hv => ?_⟩
      obtain ⟨w, hw, hnegate⟩ := bind_eq_ok.mp hv
      exact bind_eq_ok.mpr ⟨w, hab w hw, hnegate⟩
  binary := Refines.binary
  matrix := by
    intro rows f h hrows
    cases hrows with
    | matrix hn hrows =>
      have hover : ∀ r ∈ rows.map (List.map f), ∀ e ∈ r, e.IsOver numbers s := by
        intro r' hr' e' he'
        obtain ⟨r, hr, rfl⟩ := List.mem_map.mp hr'
        obtain ⟨e, he, rfl⟩ := List.mem_map.mp he'
        exact (h r hr e he (hrows r hr e he)).1
      refine ⟨.matrix hn hover, fun v hv => ?_⟩
      obtain ⟨qs, hqs, hmatrix⟩ := bind_eq_ok.mp hv
      have hrows' := evalRows_gives fun r hr e he => (h r hr e he (hrows r hr e he)).2
      exact bind_eq_ok.mpr ⟨qs, hrows' qs hqs, hmatrix⟩
  assoc := refines_assoc

/-- What the text is read as has the same value, if the signs whose parentheses are left out
associate. -/
theorem eval_regrouped {e : Expr} (h : e.IsOver numbers s)
    (hkeeps : e.keeps (BinOp.associates numbers) = true) {v : Value} (hv : s.eval e = .ok v) :
    s.eval e.regrouped = .ok v :=
  (regroups_refines.regrouped hkeeps h).2 v hv

/-- No name of a session stands for plain data. -/
theorem isPlain_of_lookup? (hs : s.IsProper) {x : String} {v : Value}
    (h : s.lookup? x = some v) : v.isPlain = false := by
  unfold Scope.lookup? at h
  dsimp only at h
  split at h
  next w hw =>
    have hproper := hs.values _ (Scope.mem_of_lookup hw)
    split at h
    · cases h
    · cases h
      cases v with
      | plain => exact hproper.elim
      | _ => rfl
  next =>
    obtain ⟨b, -, rfl⟩ := Option.map_eq_some_iff.mp h
    rfl

/-- What can be written down has no calls, and its names stand for operands. -/
theorem IsWritten.isOver {e : Expr} (h : e.IsWritten) (hs : s.IsProper) : e.IsOver false s := by
  induction h with
  | number => exact .number _
  | var =>
    apply IsOver.var
    intro v hv
    simp [Value.isOperand, isPlain_of_lookup? hs hv]
  | imaginary => exact .imaginary
  | negative _ ih => exact .unary .neg ih
  | binary _ _ _ ihl ihr => exact .binary _ ihl ihr
  | matrix _ _ ih => exact .matrix rfl ih

end Values
end Expr

namespace Session

/-- The text of an expression without calls is read again, unless it has a minus right after the
sign of a sum; then it is refused. It is read as the expression regrouped: the same expression if
no parentheses are left out, and one with the same value if those left out are around signs that
associate, in every session, or for numbers. -/
theorem read_text {line : String} {st : Statement} {e : Expr} (h : read line = .ok (some st))
    (he : e ∈ st.exprs) (hcalls : e.CallFree) :
    (e.signsApart = true → read e.text = .ok (some (.expression e.regrouped))) ∧
    (e.signsApart = false → ∃ err, read e.text = .error err) ∧
    (e.regrouped = e ↔ e.keeps (fun _ _ => false) = true) ∧
    (e.keeps (BinOp.associates false) = true →
      ∀ (s : Scope) (v : Value), s.IsProper → s.eval e = .ok v → s.eval e.regrouped = .ok v) ∧
    (e.keeps (BinOp.associates true) = true →
      ∀ (s : Scope) (v : Value), e.IsOver true s → s.eval e = .ok v →
        s.eval e.regrouped = .ok v) := by
  have hwritten := isWritten_of_read h e he hcalls
  refine ⟨read_of_signs hwritten, refused_of_signs hwritten, ⟨?_, ?_⟩, ?_, ?_⟩
  · exact Expr.keeps_of_regrouped
  · intro hkeeps
    exact (Expr.regroups_eq.regrouped hkeeps).symm
  · intro hkeeps s v hs hv
    exact Expr.eval_regrouped (hwritten.isOver hs) hkeeps hv
  · intro hkeeps s v hover hv
    exact Expr.eval_regrouped hover hkeeps hv

/-- `5 - (3 - 1)` -/
def nestedDifference : Expr :=
  .binary .sub (.number "5") (.binary .sub (.number "3") (.number "1"))

/-- The text of `5 - (3 - 1)` is read as `(5 - 3) - 1`, which has another value. -/
theorem read_text_difference :
    read "5 - (3 - 1)" = .ok (some (.expression nestedDifference)) ∧
    Scope.empty.eval nestedDifference = .ok (.rational 3) ∧
    nestedDifference.text = "5 - 3 - 1" ∧
    read nestedDifference.text = .ok (some (.expression nestedDifference.regrouped)) ∧
    Scope.empty.eval nestedDifference.regrouped = .ok (.rational 1) := by
  have hread : read "5 - (3 - 1)" = .ok (some (.expression nestedDifference)) := by cbv
  have hmem : nestedDifference ∈ (Statement.expression nestedDifference).exprs := by
    simp [Statement.exprs]
  have htext := read_text hread hmem fun g => rfl
  refine ⟨hread, ?_, by decide +kernel, htext.1 rfl, ?_⟩
  · with_unfolding_all rfl
  · with_unfolding_all rfl

end Session
end Reckoner
