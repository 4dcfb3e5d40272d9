import Mathlib
import Reckoner.Proofs.Reachable
import Reckoner.Proofs.Recasing.Bodies
import Reckoner.Proofs.Recasing.Commands
import Reckoner.Proofs.Recasing.Equations
import Reckoner.Proofs.Recasing.Lines

namespace Reckoner.Session
open Outcome
variable {s s' : Scope} {line line' : String} {lines lines' : List String} {st st' : Statement}
  {e e' : Expr} {P : Prop}

/-- Statements of which the same variables are spelled as a parameter or an unknown. Names are
looked up without regard to case, but a parameter and an unknown are found by their spelling
wherever a body is shown, calls are written out or an equation is solved. -/
def SpelledAlike (s s' : Scope) : Statement → Statement → Prop
  | .define _ x e, .define _ x' e' => Expr.SpelledAlike x x' e e'
  | .equation l none, .equation _ none => s.SpelledAlike s' l
  | .equation l (some r), .equation l' (some r') => Equation.SpelledAlike s s' l r l' r'
  | _, _ => True

def LineSpelledAlike (s s' : Scope) (line line' : String) : Prop :=
  isCommand (Text.trim line) = false → ∀ st st', read (Text.trim line) = .ok (some st) →
    read (Text.trim line') = .ok (some st') → SpelledAlike s s' st st'

theorem LineSpelledAlike.of_read (hst : read (Text.trim line) = .ok (some st))
    (hst' : read (Text.trim line') = .ok (some st')) (h : SpelledAlike s s' st st') :
    LineSpelledAlike s s' line line' := by
  intro _ u u' hu hu'
  cases hst.symm.trans hu
  cases hst'.symm.trans hu'
  exact h

/-- Scopes that differ in case only, and results that do so under a condition. -/
structure OutcomeRecased (P : Prop) (o o' : Session.Outcome) : Prop where
  result : P → Accord (Option.Rel Text.Recased) o.1 o'.1
  scope : o.2.Recased o'.2

namespace OutcomeRecased

theorem of_text {t t' : Except Error String} (hs : s.Recased s')
    (h : P → Accord Text.Recased t t') : OutcomeRecased P (some <$> t, s) (some <$> t', s') :=
  ⟨fun hP => (h hP).map fun _ _ ht => .some ht, hs⟩

theorem of_error (hs : s.Recased s') (err err' : Error) :
    OutcomeRecased P (.error err, s) (.error err', s') :=
  ⟨fun _ => .error trivial, hs⟩

end OutcomeRecased

theorem recased_of_sameName (h : e.Alike SameName SameName e') : e.Recased e' :=
  h.mono (fun h => h.1) (fun h => h.1)

theorem writtenOut_recased (hs : s.Recased s') (he : e.Recased e') (h : s.SpelledAlike s' e) :
    Accord Text.Recased (writtenOut s e) (writtenOut s' e') := by
  refine (h.inline hs he maxDepth).bind fun a a' ha => ?_
  rw [ha.hasVariables_eq]
  split
  · exact .ok (Expr.text_recased ha)
  · exact (hs.eval ha).bind fun _ _ hv => hv.result

theorem request_recased (hs : s.Recased s') (he : e.Recased e') (h : s.SpelledAlike s' e) :
    Accord Text.Recased (request s e) (request s' e') := by
  have hwritten := writtenOut_recased hs he h
  simp only [request]
  generalize writtenOut s e = o, writtenOut s' e' = o' at hwritten ⊢
  cases hwritten with
  | ok ht => exact .ok ht
  | error => exact (hs.eval he).bind fun _ _ hv => hv.result

theorem assign_recased {x x' : String} (hs : s.Recased s') (hx : Text.Recased x x')
    (he : e.Recased e') : OutcomeRecased P (assign s x e) (assign s' x' e') := by
  have heval := hs.eval he
  simp only [assign]
  generalize s.eval e = o, s'.eval e' = o' at heval ⊢
  cases heval with
  | error => exact .of_error hs _ _
  | @ok v v' hv =>
    have hassign := hs.assign hx hv
    dsimp only
    generalize s.assign x v = o, s'.assign x' v' = o' at hassign ⊢
    cases hassign with
    | error => exact .of_error hs _ _
    | ok ht => exact .of_text ht fun _ => hv.result

/-- The function that is bound differs in case only, however it is shown. -/
theorem define_recased {f f' x x' : String} (hs : s.Recased s') (hf : Text.Recased f f')
    (hx : Text.Recased x x') (he : e.Recased e') :
    OutcomeRecased (Expr.SpelledAlike x x' e e') (define s f x e) (define s' f' x' e') := by
  have hfunction : UserFunction.Recased ⟨x, e, some f⟩ ⟨x', e', some f'⟩ := ⟨hx, he, .some hf⟩
  have hassign := hs.assign hf (.function hfunction)
  simp only [define]
  generalize s.assign f _ = o, s'.assign f' _ = o' at hassign ⊢
  cases hassign with
  | error => exact .of_error hs _ _
  | ok ht => exact .of_text ht fun h => (Body.render_recased ht h).text

/-- Whatever a statement shows, it leaves sessions that differ in case only. -/
theorem perform_recased (hs : s.Recased s') (hst : st.Alike SameName st') :
    OutcomeRecased (SpelledAlike s s' st st') (perform s st) (perform s' st') := by
  cases hst with
  | expression he =>
    refine ⟨fun _ => (hs.eval (recased_of_sameName he)).bind fun _ _ hv => ?_, hs⟩
    exact hv.result.bind fun _ _ ht => .ok (.some ht)
  | assign hx he => exact assign_recased hs hx.1 (recased_of_sameName he)
  | define hf hx he => exact define_recased hs hf.1 hx.1 (recased_of_sameName he)
  | request hl => exact .of_text hs (request_recased hs (recased_of_sameName hl))
  | equation hl hr =>
    have hsolve := Equation.solve_recased hs (recased_of_sameName hl) (recased_of_sameName hr)
    exact ⟨fun h => (hsolve h).map fun _ _ ha => .some ha, hs⟩

/-- Recased lines make alike statements, which do alike things to the sessions. -/
theorem statement_recased (hs : s.Recased s') (hline : Recased line line') :
    OutcomeRecased (∀ st st', read (Text.trim line) = .ok (some st) →
        read (Text.trim line') = .ok (some st') → SpelledAlike s s' st st')
      (statement s (Text.trim line)) (statement s' (Text.trim line')) := by
  have hread := read_recased hline
  simp only [statement]
  generalize read (Text.trim line) = o, read (Text.trim line') = o' at hread ⊢
  cases hread with
  | error => exact .of_error hs _ _
  | ok hst =>
    cases hst with
    | none => exact ⟨fun _ => .ok .none, hs⟩
    | some hst =>
      have hperform := perform_recased hs hst
      exact ⟨fun h => hperform.result (h _ _ rfl rfl), hperform.scope⟩

/-- A line in one session and a recased line in the other. -/
theorem execute_recased (hs : s.Recased s') (hline : Recased line line') :
    OutcomeRecased (LineSpelledAlike s s' line line') (execute s line) (execute s' line') := by
  have htrim := hline.letters.trim
  have hwords := htrim.words
  simp only [execute, ← htrim.lower_eq, ← htrim.eq_empty_iff]
  split
  · exact ⟨fun _ => .ok .none, hs⟩
  split
  · exact .of_text hs fun _ => listing_recased hs
  split
  · have hangles := angles_recased hs hwords
    generalize angles s _ = o, angles s' _ = o' at hangles ⊢
    cases hangles with
    | error => exact .of_error hs _ _
    | ok ha => exact ⟨fun _ => .ok (.some ha.1), ha.2⟩
  split
  · have hplot := plot_recased hs hwords
    exact .of_text hs fun _ => hplot.mono fun _ _ ht => congrArg _ ht
  · have hstatement := statement_recased hs hline
    refine ⟨fun h => hstatement.result (h ?_), hstatement.scope⟩
    simp_all [isCommand]

/-- Whatever recased lines are carried out, the sessions differ in case only. -/
theorem foldl_recased (hs : s.Recased s') (h : List.Forall₂ Recased lines lines') :
    (lines.foldl (fun s line => (execute s line).2) s).Recased
      (lines'.foldl (fun s line => (execute s line).2) s') := by
  induction h generalizing s s' with
  | nil => exact hs
  | cons hline _ ih => exact ih (execute_recased hs hline).scope

section Successor

/-- The session after the definition of `f` as a function of `x`. -/
def successor (f x : String) : Scope :=
  Scope.empty.bind f (.function ⟨x, .binary .add (.var x) (.number "1"), some f⟩)

theorem recased_define : Recased "f(x) = x + 1" "F(X) = X + 1" := by
  have hsmall : identifiers "f(x) = x + 1" = ["f", "x", "x"] := by cbv
  have hcapital : identifiers "F(X) = X + 1" = ["F", "X", "X"] := by cbv
  refine ⟨by decide, ?_⟩
  rw [hsmall, hcapital]
  decide

theorem recased_equation : Recased "f(y) = 3 ?" "f(Y) = 3 ?" := by
  have hsmall : identifiers "f(y) = 3 ?" = ["f", "y"] := by cbv
  have hcapital : identifiers "f(Y) = 3 ?" = ["f", "Y"] := by cbv
  refine ⟨by decide, ?_⟩
  rw [hsmall, hcapital]
  decide

theorem run_small : run ["f(x) = x + 1"] = successor "f" "x" := by
  have hread : read (Text.trim "f(x) = x + 1") =
      .ok (some (.define "f" "x" (.binary .add (.var "x") (.number "1")))) := by cbv
  rw [run, List.foldl_cons, execute_eq_perform (by decide +kernel) hread]
  with_unfolding_all rfl

theorem run_capital : run ["F(X) = X + 1"] = successor "F" "X" := by
  have hread : read (Text.trim "F(X) = X + 1") =
      .ok (some (.define "F" "X" (.binary .add (.var "X") (.number "1")))) := by cbv
  rw [run, List.foldl_cons, execute_eq_perform (by decide +kernel) hread]
  with_unfolding_all rfl

theorem sum_spelledAlike {x x' : String} (h : Text.Recased x x') : Expr.SpelledAlike x x'
    (.binary .add (.var x) (.number "1")) (.binary .add (.var x') (.number "1")) :=
  .binary .add (.var ⟨h, by simp⟩) (.number "1")

theorem successor_spelledAlike {f f' x x' : String} (h : Text.Recased x x') (e : Expr) :
    (successor f x).SpelledAlike (successor f' x') e := by
  intro g u u' _ hu hu'
  have hmem := Scope.mem_of_function? hu
  have hmem' := Scope.mem_of_function? hu'
  simp only [successor, Scope.bind, Scope.empty, Scope.set, List.mem_singleton, Prod.mk.injEq,
    Value.function.injEq] at hmem hmem'
  rw [hmem.2, hmem'.2]
  exact sum_spelledAlike h

theorem equation_spelledAlike : LineSpelledAlike (successor "f" "x") (successor "F" "X")
    "f(y) = 3 ?" "f(Y) = 3 ?" := by
  have hread : read (Text.trim "f(y) = 3 ?") =
      .ok (some (.equation (.call "f" (.var "y")) (some (.number "3")))) := by cbv
  have hread' : read (Text.trim "f(Y) = 3 ?") =
      .ok (some (.equation (.call "f" (.var "Y")) (some (.number "3")))) := by cbv
  have hside : Equation.expand (successor "f" "x") (.call "f" (.var "y")) =
      .ok (.binary .add (.var "y") (.number "1")) := by
    with_unfolding_all rfl
  have hside' : Equation.expand (successor "F" "X") (.call "f" (.var "Y")) =
      .ok (.binary .add (.var "Y") (.number "1")) := by
    with_unfolding_all rfl
  have hnumber (s : Scope) : Equation.expand s (.number "3") = .ok (.number "3") := rfl
  have hfunctions : ∀ e, (successor "f" "x").SpelledAlike (successor "F" "X") e :=
    successor_spelledAlike (by decide)
  refine .of_read hread hread' ⟨hfunctions _, hfunctions _, ?_⟩
  intro a b a' b' x x' ha hb ha' hb' hx hx'
  cases hside.symm.trans ha
  cases hside'.symm.trans ha'
  cases (hnumber _).symm.trans hb
  cases (hnumber _).symm.trans hb'
  cases hx
  cases hx'
  exact ⟨sum_spelledAlike (by decide), .number "3"⟩

end Successor

/-- After lines that differ in the case of names only, lines that do so come to the same: to nothing
in both sessions, to an error in both, or to results that differ in case only. -/
theorem outcome_recased (hlines : List.Forall₂ Recased lines lines') (hline : Recased line line')
    (h : LineSpelledAlike (run lines) (run lines') line line') :
    Accord (Option.Rel Text.Recased) (execute (run lines) line).1
      (execute (run lines') line').1 :=
  (execute_recased (foldl_recased (.refl .empty) hlines) hline).result h

/-- A function is defined and then stands in an equation, with other letters in the second
session. -/
theorem outcome_recased_successor :
    (List.Forall₂ Recased ["f(x) = x + 1"] ["F(X) = X + 1"] ∧ Recased "f(y) = 3 ?" "f(Y) = 3 ?" ∧
      LineSpelledAlike (run ["f(x) = x + 1"]) (run ["F(X) = X + 1"]) "f(y) = 3 ?" "f(Y) = 3 ?") ∧
      Accord (Option.Rel Text.Recased) (execute (run ["f(x) = x + 1"]) "f(y) = 3 ?").1
        (execute (run ["F(X) = X + 1"]) "f(Y) = 3 ?").1 := by
  have hlines : List.Forall₂ Recased ["f(x) = x + 1"] ["F(X) = X + 1"] := .cons recased_define .nil
  have hspelled : LineSpelledAlike (run ["f(x) = x + 1"]) (run ["F(X) = X + 1"]) "f(y) = 3 ?"
      "f(Y) = 3 ?" := by
    rw [run_small, run_capital]
    exact equation_spelledAlike
  exact ⟨⟨hlines, recased_equation, hspelled⟩, outcome_recased hlines recased_equation hspelled⟩

/-- The unknown is found by its spelling: with another one beside it an equation has no answer. -/
theorem not_accord_mixed :
    Recased "x + x = 2 ?" "x + X = 2 ?" ∧
      ¬ Accord (Option.Rel Text.Recased) (execute (run []) "x + x = 2 ?").1
        (execute (run []) "x + X = 2 ?").1 := by
  have hnames : identifiers "x + x = 2 ?" = ["x", "x"] := by cbv
  have hnames' : identifiers "x + X = 2 ?" = ["x", "X"] := by cbv
  have hread : read (Text.trim "x + x = 2 ?") =
      .ok (some (.equation (.binary .add (.var "x") (.var "x")) (some (.number "2")))) := by cbv
  have hread' : read (Text.trim "x + X = 2 ?") =
      .ok (some (.equation (.binary .add (.var "x") (.var "X")) (some (.number "2")))) := by cbv
  have hsolve : Equation.solve (run []) (.binary .add (.var "x") (.var "x")) (.number "2") =
      .ok (.reduced ⟨[(1, 2), (0, -2)]⟩ "x" 1 (.single 1)) := by
    with_unfolding_all rfl
  have hsolve' : Equation.solve (run []) (.binary .add (.var "x") (.var "X")) (.number "2") =
      .error (.undefinedVariable "X") := by
    with_unfolding_all rfl
  refine ⟨⟨by decide, by rw [hnames, hnames']; decide⟩, fun h => ?_⟩
  rw [execute_eq_perform (by decide +kernel) hread, execute_eq_perform (by decide +kernel) hread',
    perform, perform, hsolve, hsolve'] at h
  cases h

end Reckoner.Session
