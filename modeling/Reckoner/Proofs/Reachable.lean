import Mathlib
import Reckoner.Proofs.Session
import Reckoner.Proofs.Simulation

namespace Reckoner
open Outcome Eval
open Inline (isNumeric)

/-- A word of letters that is not the imaginary unit. -/
structure IsBindable (x : String) : Prop where
  ne_empty : x ≠ ""
  letters : ∀ c ∈ x.toList, Token.isLetter c = true
  ne_unit : Text.lower x ≠ "i"

instance (x : String) : Decidable (IsBindable x) :=
  decidable_of_iff (x ≠ "" ∧ x.toList.all Token.isLetter = true ∧ Text.lower x ≠ "i")
    ⟨fun ⟨hne, hletters, hunit⟩ => ⟨hne, List.all_eq_true.mp hletters, hunit⟩,
      fun h => ⟨h.ne_empty, List.all_eq_true.mpr h.letters, h.ne_unit⟩⟩

/-- A word of small letters that is not the imaginary unit. -/
structure IsKey (k : String) : Prop where
  ne_empty : k ≠ ""
  letters : ∀ c ∈ k.toList, 'a' ≤ c ∧ c ≤ 'z'
  ne_unit : k ≠ "i"

def Value.IsProper : Value → Prop
  | rational _ | complex _ | builtin _ _ => True
  | matrix m => 0 < m.height ∧ 0 < m.width ∧ m.rows.length = m.height ∧
      ∀ r ∈ m.rows, r.length = m.width
  | function f => IsBindable f.param ∧ f.body.IsProper
  | plain _ => False

/-- The states of a session. -/
structure Scope.IsProper (s : Scope) : Prop where
  keys : ∀ b ∈ s.bindings, IsKey b.1
  nodup : (s.bindings.map Prod.fst).Nodup
  values : ∀ b ∈ s.bindings, b.2.IsProper
  mode : s.mode.name = "radians" ∨ s.mode.name = "degrees"
  home : s.home = .session

section Names

/-- Letters become small letters. -/
theorem toLower_small {c : Char} (h : Token.isLetter c = true) :
    'a' ≤ c.toLower ∧ c.toLower ≤ 'z' := by
  have hall : ∀ n < 0x80, Token.isLetter (Char.ofNat n) = true →
      'a' ≤ (Char.ofNat n).toLower ∧ (Char.ofNat n).toLower ≤ 'z' := by
    decide +kernel
  have hn := Token.isLetter_iff.mp h
  have hc := hall c.toNat (by omega)
  rw [Char.ofNat_toNat] at hc
  exact hc h

theorem IsBindable.isKey {x : String} (h : IsBindable x) : IsKey (Text.lower x) := by
  have hused : ∀ c ∈ x.toList, Token.isUsed c = true := by
    intro c hc
    simp [Token.isUsed, h.letters c hc]
  have hlower : (Text.lower x).toList = x.toList.flatMap Text.lowerChar := by
    rw [← Text.toList_lower hused, String.ofList_toList]
  refine ⟨?_, ?_, h.ne_unit⟩
  · intro he
    rw [he, eq_comm, String.toList_empty, List.flatMap_eq_nil_iff] at hlower
    apply h.ne_empty
    apply String.toList_eq_nil_iff.mp
    refine List.eq_nil_iff_forall_not_mem.mpr fun c hc => ?_
    exact Text.lowerChar_ne_nil c (hlower c hc)
  · intro d hd
    rw [hlower] at hd
    obtain ⟨c, hc, hd⟩ := List.mem_flatMap.mp hd
    have hletter := h.letters c hc
    have hn := Token.isLetter_iff.mp hletter
    have hchar : Text.lowerChar c = [c.toLower] := if_pos (by omega)
    rw [hchar] at hd
    obtain rfl := List.mem_singleton.mp hd
    exact toLower_small hletter

/-- The parser refuses to bind the imaginary unit. -/
theorem Session.isBindable_of_read {line : String} {st : Statement}
    (h : read line = .ok (some st)) : ∀ x ∈ st.names, IsBindable x := by
  intro x hx
  obtain ⟨ts, hlex, hparse⟩ := read_eq_ok.mp h
  obtain ⟨hi, t, ht, hkind, rfl⟩ := Grammar.name_of_parse hparse x hx
  obtain ⟨hne, hletters⟩ := Token.isLetter_lexFrom hlex t ht hkind
  exact ⟨hne, hletters, hi⟩

end Names

section Evaluation
variable {s t : Scope} {e : Expr} {v w : Value} {u u' : Home → AngleMode}

theorem Value.isProper_of_isNumeric (h : isNumeric v = true) : v.IsProper := by
  cases v with
  | rational | complex => exact trivial
  | matrix m => exact ⟨m.height_pos, m.width_pos, m.length_rows, m.length_row⟩
  | function | builtin | plain => cases h

/-- Functions that the grammar gives are alike if they are the same. -/
def Comparison.proper : Comparison where
  functions f f' := f' = f ∧ (Value.function f).IsProper
  plain := False
  strict := False

theorem Comparison.Alike.isProper (h : Comparison.proper.Alike u u' v w) : v.IsProper := by
  cases h with
  | numeric h => exact Value.isProper_of_isNumeric h
  | plain d h => exact h.elim
  | function h => exact h.2
  | builtin => exact trivial

theorem Value.IsProper.alike (h : v.IsProper) : Comparison.proper.Alike u u v v := by
  cases v with
  | rational | complex | matrix => exact .numeric rfl
  | function f => exact .function ⟨rfl, h⟩
  | builtin b home => exact .builtin b rfl
  | plain d => exact h.elim

/-- A session of proper values agrees with itself. -/
theorem Scope.agree_of_isProper (hs : ∀ b ∈ s.bindings, b.2.IsProper) :
    Agree Comparison.proper (fun _ => True) s s := by
  constructor
  · intro k _
    cases hk : s.bindings.lookup k with
    | none => exact .none
    | some v => exact .some (hs _ (mem_of_lookup hk)).alike
  · intro k b _ _ _
    rfl

/-- What the grammar gives evaluates to proper values. -/
theorem Eval.evalDeep_isProper (hs : ∀ b ∈ s.bindings, b.2.IsProper) (he : e.IsProper) (n : Nat) :
    Gives Value.IsProper (evalDeep n s e) := by
  intro v hv
  -- The run is compared with itself: only proper values are alike to themselves.
  have hsim := Scope.Agree.simulation (C := Comparison.proper) (K := fun _ => True)
    (Q := Expr.IsProper) (fun hd he => he.part hd) (fun h => nomatch h) (fun _ _ => trivial)
    (fun hf => ⟨hf.1, hf.2.2⟩)
  have hm := hsim.evalDeep_matches n ⟨rfl, he, Scope.agree_of_isProper hs⟩
  rw [Expr.mapNames_id, hv] at hm
  cases hm with
  | ok h => exact h.isProper

end Evaluation

namespace Scope
variable {s : Scope} {k x : String} {v : Value} {b : String × Value}
  {bs : List (String × Value)}

theorem mem_set (h : b ∈ set k v bs) : b = (k, v) ∨ b ∈ bs := by
  induction bs with
  | nil => exact .inl (List.mem_singleton.mp h)
  | cons c bs ih =>
    unfold set at h
    split at h
    next hk =>
      subst hk
      rcases List.mem_cons.mp h with rfl | h
      · exact .inl rfl
      · exact .inr (List.mem_cons_of_mem _ h)
    next =>
      rcases List.mem_cons.mp h with rfl | h
      · exact .inr List.mem_cons_self
      · exact (ih h).imp_right (List.mem_cons_of_mem _)

/-- A name that is bound again keeps its place, so no name is bound twice. -/
theorem nodup_set (h : (bs.map Prod.fst).Nodup) : ((set k v bs).map Prod.fst).Nodup := by
  induction bs with
  | nil => exact List.nodup_singleton k
  | cons c bs ih =>
    obtain ⟨hc, hbs⟩ := List.nodup_cons.mp h
    unfold set
    split
    next => exact h
    next hk =>
      refine List.nodup_cons.mpr ⟨fun hmem => ?_, ih hbs⟩
      obtain ⟨b, hb, heq⟩ := List.mem_map.mp hmem
      rcases mem_set hb with rfl | hb
      · exact hk heq.symm
      · exact hc (List.mem_map.mpr ⟨b, hb, heq⟩)

theorem isProper_empty : empty.IsProper where
  keys := fun _ hb => nomatch hb
  nodup := List.nodup_nil
  values := fun _ hb => nomatch hb
  mode := .inl rfl
  home := rfl

theorem IsProper.bind (hs : s.IsProper) (hx : IsBindable x) (hv : v.IsProper) :
    (s.bind x v).IsProper where
  keys := by
    intro b hb
    rcases mem_set hb with rfl | hb
    · exact hx.isKey
    · exact hs.keys b hb
  nodup := nodup_set hs.nodup
  values := by
    intro b hb
    rcases mem_set hb with rfl | hb
    · exact hv
    · exact hs.values b hb
  mode := hs.mode
  home := hs.home

theorem IsProper.withMode (hs : s.IsProper) (mode : AngleMode) :
    { s with mode := mode }.IsProper :=
  { hs with
    mode := by
      cases mode with
      | radians => exact .inl rfl
      | degrees => exact .inr rfl }

end Scope

namespace Session

/-- What is left of a session after some lines, whether they succeed or fail. -/
def run (lines : List String) : Scope :=
  lines.foldl (fun s line => (execute s line).2) .empty

/-- A line leads from proper states to proper states. -/
theorem execute_isProper {s : Scope} (hs : s.IsProper) (text : String) :
    (execute s text).2.IsProper := by
  have hc := execute_changes s text
  generalize execute s text = o at hc
  cases hc with
  | kept => exact hs
  | angles t mode => exact hs.withMode mode
  | @assigned name e v hread hv =>
    have hname := isBindable_of_read hread name (by simp [Statement.names])
    have he := isProper_of_read hread e (by simp [Statement.exprs])
    exact hs.bind hname (evalDeep_isProper hs.values he _ v hv)
  | @defined name param body hread =>
    have hname := isBindable_of_read hread name (by simp [Statement.names])
    have hparam := isBindable_of_read hread param (by simp [Statement.names])
    have hbody := isProper_of_read hread body (by simp [Statement.exprs])
    exact hs.bind hname ⟨hparam, hbody⟩

/-- Any number of lines keeps the states of a session proper, whether they succeed or fail. -/
theorem foldl_isProper {s : Scope} (hs : s.IsProper) (lines : List String) :
    (lines.foldl (fun s line => (execute s line).2) s).IsProper := by
  induction lines generalizing s with
  | nil => exact hs
  | cons line lines ih => exact ih (execute_isProper hs line)

/-- Lines lead to proper states only. In these the expressions of a line evaluate to proper values,
if they have a value. -/
theorem run_isProper :
    (∀ lines : List String, (run lines).IsProper) ∧
    ∀ (s : Scope) (ts : List Token) (st : Statement) (e : Expr) (n : Nat) (v : Value),
      s.IsProper → Parser.parse ts = .ok (some st) → e ∈ st.exprs → evalDeep n s e = .ok v →
        v.IsProper := by
  constructor
  · intro lines
    exact foldl_isProper Scope.isProper_empty lines
  · intro s ts st e n v hs hparse he hv
    exact evalDeep_isProper hs.values (Grammar.isProper_of_parse hparse e he) n v hv

/-- A matrix, a line that fails since `f` is not defined yet, and a function. -/
def squaringLines : List String :=
  ["A = [1, 2; 3, 4]", "a = f(1)", "f(x) = x^2"]

def squared : RatMatrix :=
  ⟨2, 2, [[7, 10], [15, 22]], by decide, by decide, by decide, by decide⟩

theorem eval_squaringLines :
    (run squaringLines).eval (.call "F" (.var "a")) = .ok (.matrix squared) := by
  have hA : read (Text.trim "A = [1, 2; 3, 4]") = .ok (some (.assign "A" (.matrix
      [[.number "1", .number "2"], [.number "3", .number "4"]]))) := by cbv
  have hfail : read (Text.trim "a = f(1)") =
      .ok (some (.assign "a" (.call "f" (.number "1")))) := by cbv
  have hf : read (Text.trim "f(x) = x^2") =
      .ok (some (.define "f" "x" (.binary .pow (.var "x") (.number "2")))) := by cbv
  rw [squaringLines, run, List.foldl_cons, List.foldl_cons, List.foldl_cons, List.foldl_nil,
    execute_eq_perform (by decide +kernel) hA, execute_eq_perform (by decide +kernel) hfail,
    execute_eq_perform (by decide +kernel) hf]
  with_unfolding_all rfl

/-- The square of a matrix, after a line that has failed. -/
theorem run_isProper_squared :
    ((run squaringLines).IsProper ∧
      Parser.parse [⟨.identifier, "F", 0⟩, ⟨.lparen, "(", 1⟩, ⟨.identifier, "a", 2⟩,
        ⟨.rparen, ")", 3⟩] = .ok (some (.expression (.call "F" (.var "a")))) ∧
      (run squaringLines).eval (.call "F" (.var "a")) = .ok (.matrix squared)) ∧
    (Value.matrix squared).IsProper := by
  have hs := run_isProper.1 squaringLines
  have hparse : Parser.parse [⟨.identifier, "F", 0⟩, ⟨.lparen, "(", 1⟩, ⟨.identifier, "a", 2⟩,
      ⟨.rparen, ")", 3⟩] = .ok (some (.expression (.call "F" (.var "a")))) := by
    with_unfolding_all rfl
  have hv := run_isProper.2 _ _ _ _ _ _ hs hparse (List.mem_singleton_self _) eval_squaringLines
  exact ⟨⟨hs, hparse, eval_squaringLines⟩, hv⟩

end Session
end Reckoner
