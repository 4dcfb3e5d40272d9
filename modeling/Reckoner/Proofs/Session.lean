import Mathlib
import Reckoner.Proofs.Grammar.Proper
import Reckoner.Proofs.Request

namespace Reckoner
open Outcome

def IsWriting (err : Error) : Prop :=
  err = .printedTooLong ∨ err = .quotientTooLarge

namespace Value

theorem text?_eq_error {v : Value} {err : Error} :
    v.text? = .error err ↔ v.tooLong = true ∧ err = .printedTooLong := by
  unfold text?
  split
  next h => simp [h, eq_comm]
  next h => simp [h]

/-- A result is not shown only if it is too long. -/
theorem result_eq_error {v : Value} {err : Error} (h : v.result = .error err) :
    v.tooLong = true ∧ err = .printedTooLong := by
  cases v with
  | function f => cases h
  | rational | complex | matrix | builtin | plain => exact text?_eq_error.mp h

theorem inBody_fails (q : Rat) : Fails IsWriting (rational q).inBody := by
  intro err h
  simp only [inBody] at h
  split at h
  · exact .inl (text?_eq_error.mp h).2
  · unfold Rational.toDouble at h
    split at h
    · cases h
      exact .inr rfl
    · cases h

end Value

namespace Body
variable {s : Scope} {x : String} {e : Expr} {E : Error → Prop}

theorem Sum.text_fails (a : Sum) : Fails IsWriting a.text := by
  unfold Sum.text
  split
  · exact fails_ok _
  · exact (Value.inBody_fails _).bind fun c => fails_ok _

theorem sumOf_fails (op : BinOp) {a b : Except Error Sum} (ha : Fails E a) (hb : Fails E b) :
    Fails E (sumOf op a b) :=
  ha.bind fun _ => hb.bind fun _ => fails_ok _

/-- A part that does not come to a number is kept as its text. -/
theorem leaf_fails (he : e.IsProper) {text : Except Error String} (ht : Fails E text) :
    Fails E (leaf s x e text) := by
  unfold leaf
  split
  · cases he
  · split
    · exact fails_map.mpr ht
    · split
      · exact fails_ok _
      · exact fails_map.mpr ht

theorem renderRow_fails {r : List Expr} (h : ∀ e ∈ r, Fails E (render s x e).text) :
    Fails E (renderRow s x r) := by
  induction r with
  | nil => exact fails_ok _
  | cons e es ih =>
    obtain ⟨he, hes⟩ := List.forall_mem_cons.mp h
    exact he.bind fun _ => (ih hes).bind fun _ => fails_ok _

theorem renderRows_fails {rows : List (List Expr)}
    (h : ∀ r ∈ rows, ∀ e ∈ r, Fails E (render s x e).text) : Fails E (renderRows s x rows) := by
  induction rows with
  | nil => exact fails_ok _
  | cons r rs ih =>
    obtain ⟨hr, hrs⟩ := List.forall_mem_cons.mp h
    exact (renderRow_fails hr).bind fun _ => (ih hrs).bind fun _ => fails_ok _

/-- A body as the grammar has it fails to be shown only where a constant cannot be written. -/
theorem render_fails (he : e.IsProper) :
    Fails IsWriting (render s x e).text ∧ Fails IsWriting (render s x e).sum := by
  -- A part that is no sum fails only with its text, and a part without the parameter not at all.
  have hleaf {e : Expr} {text : Except Error String} (he : e.IsProper) (ht : Fails IsWriting text) :
      Fails IsWriting text ∧ Fails IsWriting (leaf s x e text) :=
    ⟨ht, leaf_fails he ht⟩
  have hconst {e : Expr} {text : Except Error String} (ht : Fails IsWriting text) :
      Fails IsWriting (if e.mentions x then text else .ok (constantText s e)) := by
    split
    · exact ht
    · exact fails_ok _
  induction he with
  | number | var | imaginary =>
    simp only [render]
    exact hleaf (by constructor) (fails_ok _)
  | negative he ih =>
    simp only [render]
    exact hleaf he.negative (hconst (fails_map.mpr ih.1))
  | @binary op l r hop hl hr ihl ihr =>
    simp only [render]
    split
    · have hsum := sumOf_fails op ihl.2 ihr.2
      exact ⟨hconst (hsum.bind Sum.text_fails), hsum⟩
    · exact hleaf (.binary hop hl hr) (hconst (ihl.1.bind fun _ => ihr.1.bind fun _ => fails_ok _))
  | call g he ih =>
    simp only [render]
    exact hleaf (he.call g) (hconst (fails_map.mpr ih.1))
  | matrix h ih =>
    simp only [render]
    refine hleaf (.matrix h) (hconst (fails_map.mpr (renderRows_fails ?_)))
    exact fun r hr e he => (ih r hr e he).1

end Body

namespace Session
open Text
variable {s : Scope} {line text : String} {st : Statement}

/-- The expressions of a line are those of the grammar. -/
theorem isProper_of_read (h : read line = .ok (some st)) : ∀ e ∈ st.exprs, e.IsProper := by
  obtain ⟨ts, -, hparse⟩ := read_eq_ok.mp h
  exact Grammar.isProper_of_parse hparse

/-- What carrying out a line may do to the session. -/
inductive Changes (s : Scope) (line : String) : Outcome → Prop where
  | kept (r : Except Error (Option String)) : Changes s line (r, s)
  | angles (t : String) (mode : AngleMode) : Changes s line (.ok (some t), { s with mode := mode })
  | assigned {name : String} {e : Expr} {v : Value}
      (hread : read line = .ok (some (.assign name e))) (hv : s.eval e = .ok v) :
      Changes s line (some <$> v.result, s.bind name v)
  | defined {name param : String} {body : Expr}
      (hread : read line = .ok (some (.define name param body))) :
      Changes s line
        (some <$> (s.bind name (.function ⟨param, body, some name⟩)).bodyText param body,
          s.bind name (.function ⟨param, body, some name⟩))

theorem angles_changes {words : List String} {t : String} {after : Scope}
    (h : angles s words = .ok (t, after)) : ∃ mode, after = { s with mode := mode } := by
  unfold angles at h
  split at h
  · cases h
    exact ⟨s.mode, rfl⟩
  · split at h
    · cases h
    next after' hset =>
      cases h
      unfold Scope.setMode at hset
      split at hset
      · cases hset
      · cases hset
        exact ⟨_, rfl⟩
  · cases h

/-- A new value is bound before it is shown, so it is kept even if it is too long to be written. -/
theorem assign_changes {name : String} {e : Expr}
    (h : read line = .ok (some (.assign name e))) : Changes s line (assign s name e) := by
  unfold assign Scope.assign
  cases hv : s.eval e with
  | error err => exact .kept _
  | ok v =>
    by_cases hi : lower name = "i"
    · simp only [hi, if_true]
      exact .kept _
    · simp only [hi, if_false]
      exact .assigned h hv

theorem define_changes {name param : String} {body : Expr}
    (h : read line = .ok (some (.define name param body))) :
    Changes s line (define s name param body) := by
  unfold define Scope.assign
  by_cases hi : lower name = "i"
  · simp only [hi, if_true]
    exact .kept _
  · simp only [hi, if_false]
    exact .defined h

/-- Only assignments and definitions change a session, apart from the commands for the unit of
angles. -/
theorem statement_changes (s : Scope) (line : String) : Changes s line (statement s line) := by
  unfold statement
  split
  · exact .kept _
  · exact .kept _
  next st h =>
    cases st with
    | expression e => exact .kept _
    | assign name e => exact assign_changes h
    | define name param body => exact define_changes h
    | equation l r => cases r <;> exact .kept _

/-- A line changes the unit of angles, or binds one name, or nothing. -/
theorem execute_changes (s : Scope) (text : String) : Changes s (trim text) (execute s text) := by
  unfold execute
  dsimp only
  split
  · exact .kept _
  split
  · exact .kept _
  split
  · split
    · exact .kept _
    next t after h =>
      obtain ⟨mode, rfl⟩ := angles_changes h
      exact .angles t mode
  split
  · exact .kept _
  · exact statement_changes s (trim text)

/-- `10^4300`, the least power of ten that is not written. -/
def unwritten : Expr :=
  .binary .pow (.number "10") (.number "4300")

theorem eval_unwritten :
    Scope.empty.eval unwritten = .ok (.rational (Rational.powNat 10 4300)) := by
  with_unfolding_all rfl

/-- A line that fails leaves the session as it was, unless all that fails is to write the value of
an assignment or the body of a definition: then the new value is bound to its name. -/
theorem execute_failed (s : Scope) (text : String) (err : Error)
    (h : (execute s text).1 = .error err) :
    (execute s text).2 = s ∨
    (∃ name e v, read (trim text) = .ok (some (.assign name e)) ∧ s.eval e = .ok v ∧
      (execute s text).2 = s.bind name v ∧ v.tooLong = true ∧ err = .printedTooLong) ∨
    (∃ name param body, read (trim text) = .ok (some (.define name param body)) ∧
      (execute s text).2 = s.bind name (.function ⟨param, body, some name⟩) ∧
      (execute s text).2.bodyText param body = .error err ∧ IsWriting err) := by
  have hc := execute_changes s text
  generalize execute s text = o at h hc
  cases hc with
  | kept r => exact .inl rfl
  | angles t mode => cases h
  | @assigned name e v hread hv =>
    obtain ⟨hlong, rfl⟩ := Value.result_eq_error (map_eq_error.mp h)
    exact .inr (.inl ⟨name, e, v, hread, hv, rfl, hlong, rfl⟩)
  | @defined name param body hread =>
    have hbody := map_eq_error.mp h
    have hproper := isProper_of_read hread body (by simp [Statement.exprs])
    have hwriting := (Body.render_fails hproper).1 err hbody
    exact .inr (.inr ⟨name, param, body, hread, rfl, hbody, hwriting⟩)

/-- The function of `f(x) = x + 10^4300` is kept. -/
theorem execute_failed_defined :
    (execute .empty "f(x) = x + 10^4300").1 = .error .printedTooLong ∧
    (execute .empty "f(x) = x + 10^4300").2 = Scope.empty.bind "f"
      (.function ⟨"x", .binary .add (.var "x") unwritten, some "f"⟩) := by
  have hread : read (trim "f(x) = x + 10^4300") =
      .ok (some (.define "f" "x" (.binary .add (.var "x") unwritten))) := by cbv
  have hexec : execute .empty "f(x) = x + 10^4300" =
      perform .empty (.define "f" "x" (.binary .add (.var "x") unwritten)) :=
    execute_eq_perform (by decide +kernel) hread
  have hfail : (execute .empty "f(x) = x + 10^4300").1 = .error .printedTooLong := by
    rw [hexec]
    decide +kernel
  refine ⟨hfail, ?_⟩
  have hcases := execute_failed .empty "f(x) = x + 10^4300" .printedTooLong hfail
  rw [hread, hexec] at hcases
  rcases hcases with hkept | ⟨_, _, _, hassign, -⟩ | ⟨_, _, _, hdefine, hafter, -⟩
  · cases congrArg (fun s => s.bindings.length) hkept
  · cases hassign
  · cases hdefine
    rw [hexec]
    exact hafter

/-- The line `a = 10^4300` fails, and yet `a` has a value after it. -/
theorem execute_unwritten_kept :
    (execute .empty "a = 10^4300").1 = .error .printedTooLong ∧
    Scope.empty.lookup? "a" = none ∧
    (execute .empty "a = 10^4300").2.lookup? "a" =
      some (.rational (Rational.powNat 10 4300)) := by
  have hread : read (trim "a = 10^4300") = .ok (some (.assign "a" unwritten)) := by cbv
  rw [execute_eq_perform (by decide +kernel) hread]
  refine ⟨by decide +kernel, by decide +kernel, ?_⟩
  rw [perform, assign, eval_unwritten]
  with_unfolding_all rfl

end Session
end Reckoner
