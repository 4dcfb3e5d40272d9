import Mathlib
import Reckoner.Proofs.Session

namespace Reckoner

/-- The name that a statement binds. -/
def Statement.target? : Statement → Option String
  | assign name _ | define name _ _ => some name
  | expression _ | equation _ _ => none

namespace Scope

def others (s : Scope) (key : String) : List (String × Value) :=
  s.bindings.filter (fun b => b.1 != key)

theorem filter_set (key : String) (v : Value) (bs : List (String × Value)) :
    (set key v bs).filter (fun b => b.1 != key) = bs.filter (fun b => b.1 != key) := by
  induction bs with
  | nil => simp [set]
  | cons b bs ih =>
    obtain ⟨k, w⟩ := b
    by_cases hk : k = key
    · simp [set, hk]
    · simp [set, hk, ih]

/-- Binding a name leaves all others alone. -/
theorem others_bind (s : Scope) (name : String) (v : Value) :
    (s.bind name v).others (Text.lower name) = s.others (Text.lower name) :=
  filter_set (Text.lower name) v s.bindings

theorem eq_bind_of_assign {s t : Scope} {name : String} {v : Value}
    (h : s.assign name v = .ok t) : t = s.bind name v := by
  unfold assign at h
  split at h
  · cases h
  · exact (Except.ok.inj h).symm

end Scope

namespace Session
open Text
variable {s : Scope} {line text : String}

/-- A line that is taken for the command for the unit of angles. -/
def namesAngles (line : String) : Bool :=
  (lower line).startsWith "angles"

/-- The unit that the words of the command set: there is one more word, the name of a unit. -/
def unitOf : List String → Option AngleMode
  | [_, unit] => AngleMode.ofName? (lower unit)
  | _ => none

def unit? (line : String) : Option AngleMode :=
  if namesAngles line then unitOf (words line) else none

theorem unit?_of_not (h : namesAngles line = false) : unit? line = none := by
  simp [unit?, h]

/-- The command sets the unit that it names, or shows the present one, or is refused. -/
theorem angles_sets (s : Scope) (ws : List String) :
    (∃ t, angles s ws = .ok (t, { s with mode := (unitOf ws).getD s.mode })) ∨
      unitOf ws = none ∧ ∃ err, angles s ws = .error err := by
  match ws with
  | [] => exact .inr ⟨rfl, _, rfl⟩
  | [w] => exact .inl ⟨_, rfl⟩
  | [w, unit] =>
    simp only [angles, unitOf, Scope.setMode]
    cases AngleMode.ofName? (lower unit) with
    | none => exact .inr ⟨rfl, _, rfl⟩
    | some m => exact .inl ⟨_, rfl⟩
  | w :: unit :: more :: ws => exact .inr ⟨rfl, _, rfl⟩

/-- The command for the unit of angles sets the unit, or does nothing. -/
theorem execute_of_namesAngles (h : namesAngles (trim text) = true) :
    (execute s text).2.bindings = s.bindings ∧
      (execute s text).2.mode = (unit? (trim text)).getD s.mode := by
  have hne : trim text ≠ "" := by
    intro he
    rw [he] at h
    revert h
    decide +kernel
  have hlist : ¬ (lower (trim text) = "vars" ∨ lower (trim text) = "display" ∨
      lower (trim text) = "show") := by
    unfold namesAngles at h
    rintro (he | he | he) <;> rw [he] at h <;> revert h <;> decide +kernel
  have hangles : (lower (trim text)).startsWith "angles" = true := h
  simp only [execute, hne, hlist, hangles, unit?, h, if_true, if_false]
  generalize words (trim text) = ws
  rcases angles_sets s ws with ⟨t, ht⟩ | ⟨hunit, err, herr⟩
  · simp only [ht, and_self]
  · simp only [hunit, herr, Option.getD_none, and_self]

/-- A statement binds its own name, or does nothing. -/
theorem perform_binds (s : Scope) (st : Statement) :
    (perform s st).2 = s ∨
      ∃ name v, st.target? = some name ∧ (perform s st).2 = s.bind name v := by
  cases st with
  | expression e => exact .inl rfl
  | assign name e =>
    simp only [perform, assign]
    cases s.eval e with
    | error err => exact .inl rfl
    | ok v =>
      cases hassign : s.assign name v with
      | error err => exact .inl (by simp only [hassign])
      | ok t => exact .inr ⟨name, v, rfl, by simp only [hassign, Scope.eq_bind_of_assign hassign]⟩
  | define name param body =>
    simp only [perform, define]
    cases hassign : s.assign name (.function ⟨param, body, some name⟩) with
    | error err => exact .inl rfl
    | ok t => exact .inr ⟨name, _, rfl, Scope.eq_bind_of_assign hassign⟩
  | equation l r => cases r <;> exact .inl rfl

/-- A line that is not taken for the command binds the name of its statement, or does nothing. -/
theorem execute_of_not_namesAngles (h : namesAngles (trim text) = false) :
    (execute s text).2 = s ∨
      ∃ st name v, read (trim text) = .ok (some st) ∧ st.target? = some name ∧
        (execute s text).2 = s.bind name v := by
  have hangles : (lower (trim text)).startsWith "angles" = false := h
  simp only [execute, hangles, Bool.false_eq_true, if_false]
  split
  · exact .inl rfl
  split
  · exact .inl rfl
  split
  · exact .inl rfl
  simp only [statement]
  split
  · exact .inl rfl
  · exact .inl rfl
  next st hread =>
    rcases perform_binds s st with hkept | ⟨name, v, hname, hbind⟩
    · exact .inl hkept
    · exact .inr ⟨st, name, v, hread, hname, hbind⟩

/-- A line leaves all bindings alone but that of the name it assigns or defines, and it leaves the
unit of angles alone unless it begins with the word of the command for it and ends with a second
word that names a unit. A line that is taken for the command leaves all bindings alone, and a line
that neither is that nor binds a name leaves everything as it was. -/
theorem execute_frame (s : Scope) (text : String) :
    let after := (execute s text).2
    (∀ st name, read (trim text) = .ok (some st) → st.target? = some name →
      after.others (lower name) = s.others (lower name) ∧
      (unit? (trim text) = none → after.mode = s.mode)) ∧
    (namesAngles (trim text) = true → after.bindings = s.bindings) ∧
    (namesAngles (trim text) = false →
      (∀ st, read (trim text) = .ok (some st) → st.target? = none) → after = s) ∧
    after.mode = (unit? (trim text)).getD s.mode := by
  intro after
  by_cases hangles : namesAngles (trim text) = true
  · obtain ⟨hbindings, hmode⟩ := execute_of_namesAngles (s := s) hangles
    refine ⟨?_, fun _ => hbindings, ?_, hmode⟩
    · intro st name _ _
      refine ⟨congrArg (List.filter _) hbindings, ?_⟩
      intro hunit
      rw [hmode, hunit, Option.getD_none]
    · intro hnot
      cases hangles.symm.trans hnot
  rw [Bool.not_eq_true] at hangles
  have hunit := unit?_of_not hangles
  rcases execute_of_not_namesAngles (s := s) hangles with hkept | ⟨st, name, v, hread, hname, hbind⟩
  · have hafter : after = s := hkept
    simp [hafter, hunit]
  · have hafter : after = s.bind name v := hbind
    rw [hafter, hunit, Option.getD_none]
    refine ⟨?_, ?_, ?_, rfl⟩
    · intro st' name' hread' hname'
      cases hread.symm.trans hread'
      cases hname.symm.trans hname'
      exact ⟨s.others_bind name v, fun _ => rfl⟩
    · intro h
      cases h.symm.trans hangles
    · intro _ hnone
      cases hname.symm.trans (hnone st hread)

def doubled : Scope :=
  .bind .empty "x" (.rational 2)

/-- `Y = x + 1` leaves `x` alone, `angles deg` all names and `x + 1` everything, but
`anglesum= deg`, which reads as an assignment, sets the unit of angles. -/
theorem execute_frame_anglesum :
    (read (trim "Y = x + 1") = .ok (some (.assign "Y" (.binary .add (.var "x") (.number "1")))) ∧
      (execute doubled "Y = x + 1").2.others "y" = doubled.others "y" ∧
      (execute doubled "Y = x + 1").2.mode = doubled.mode) ∧
    (namesAngles (trim "angles deg") = true ∧
      (execute doubled "angles deg").2.bindings = doubled.bindings) ∧
    (read (trim "x + 1") = .ok (some (.expression (.binary .add (.var "x") (.number "1")))) ∧
      (execute doubled "x + 1").2 = doubled) ∧
    (read (trim "anglesum= deg") = .ok (some (.assign "anglesum" (.var "deg"))) ∧
      doubled.mode = .radians ∧ (execute doubled "anglesum= deg").2.mode = .degrees) := by
  have hassign : read (trim "Y = x + 1") =
      .ok (some (.assign "Y" (.binary .add (.var "x") (.number "1")))) := by cbv
  have hsum : read (trim "x + 1") =
      .ok (some (.expression (.binary .add (.var "x") (.number "1")))) := by cbv
  have hangles : namesAngles (trim "angles deg") = true := by decide +kernel
  have hkey : lower "Y" = "y" := by decide
  obtain ⟨hother, -⟩ := execute_frame doubled "Y = x + 1"
  obtain ⟨-, hcommand, -⟩ := execute_frame doubled "angles deg"
  obtain ⟨-, -, hrest, -⟩ := execute_frame doubled "x + 1"
  obtain ⟨-, -, -, hmode⟩ := execute_frame doubled "anglesum= deg"
  refine ⟨⟨hassign, ?_⟩, ⟨hangles, hcommand hangles⟩, ⟨hsum, ?_⟩, ⟨by cbv, rfl, ?_⟩⟩
  · obtain ⟨hothers, hunit⟩ := hother _ "Y" hassign rfl
    rw [hkey] at hothers
    exact ⟨hothers, hunit (by decide +kernel)⟩
  · refine hrest (by decide +kernel) fun st hst => ?_
    cases hsum.symm.trans hst
    rfl
  · have hunit : unit? (trim "anglesum= deg") = some .degrees := by decide +kernel
    rw [hmode, hunit, Option.getD_some]

end Session
end Reckoner
