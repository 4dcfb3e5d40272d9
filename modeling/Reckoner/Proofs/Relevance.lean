import Mathlib
import Reckoner.Proofs.Calls
import Reckoner.Proofs.Session

namespace Reckoner
open Outcome Eval

/-- A value that brings only names of `K` with it: a function whose body reads no others. -/
def Value.Inside (K : String → Prop) : Value → Prop
  | function f => ∀ y, f.body.reads y = true → K (Text.lower y)
  | _ => True

namespace Scope

/-- The names of `K` stand for values that bring only names of `K` with them. -/
def ClosedOn (K : String → Prop) (s : Scope) : Prop :=
  ∀ k v, K k → s.bindings.lookup k = some v → v.Inside K

structure SameOn (K : String → Prop) (s t : Scope) : Prop where
  mode_eq : t.mode = s.mode
  home_eq : t.home = s.home
  lookup_eq : ∀ k, K k → t.bindings.lookup k = s.bindings.lookup k

section Closed
variable {K : String → Prop} {s t : Scope} {e : Expr} {v : Value} {x : String}

theorem lookup_bind (k : String) :
    (s.bind x v).bindings.lookup k = if k = Text.lower x then some v else s.bindings.lookup k :=
  lookup_set s.bindings

/-- The names that an expression uses are closed under what they stand for. -/
theorem closedOn_uses (s : Scope) (e : Expr) : s.ClosedOn (Uses s.bindings e) := by
  intro k v hk hv
  cases v with
  | function f =>
    intro y hy
    exact .inBody hk hv hy
  | rational | complex | matrix | builtin | plain => exact trivial

theorem ClosedOn.bind (hs : s.ClosedOn K) (hv : v.Inside K) : (s.bind x v).ClosedOn K := by
  intro k w hk hw
  rw [lookup_bind] at hw
  split at hw
  · cases hw
    exact hv
  · exact hs k w hk hw

theorem ClosedOn.enter (hs : s.ClosedOn K) (hv : v.Inside K) (p : String) :
    (s.enter p v).ClosedOn K :=
  hs.bind hv

theorem lookup_of_function {f : UserFunction} (hf : s.lookup? x = some (.function f)) :
    s.bindings.lookup (Text.lower x) = some (.function f) := by
  cases hx : s.bindings.lookup (Text.lower x) with
  | none =>
    rw [lookup?_of_free hx] at hf
    obtain ⟨b, -, hb⟩ := Option.map_eq_some_iff.mp hf
    cases hb
  | some v =>
    rw [lookup?_of_bound hx] at hf
    split at hf
    · cases hf
    · exact hf

/-- A scope agrees with itself on names that bring no others with them. -/
theorem ClosedOn.agree (hs : s.ClosedOn K) : Agree (Comparison.within K) K s s := by
  constructor
  · intro k hk
    cases hv : s.bindings.lookup k with
    | none => exact .none
    | some v =>
      apply Option.Rel.some
      have hinside := hs k v hk hv
      cases v with
      | rational | complex | matrix => exact .numeric rfl
      | function f => exact .function ⟨rfl, hinside⟩
      | builtin b home => exact .builtin b rfl
      | plain d => exact .plain d trivial
  · intro k b _ _ _
    rfl

theorem SameOn.refl (s : Scope) : SameOn K s s :=
  ⟨rfl, rfl, fun _ _ => rfl⟩

theorem SameOn.bind (h : SameOn K s t) (x : String) (v : Value) :
    SameOn K (s.bind x v) (t.bind x v) := by
  refine ⟨h.mode_eq, h.home_eq, ?_⟩
  intro k hk
  rw [lookup_bind, lookup_bind, h.lookup_eq k hk]

theorem SameOn.enter (h : SameOn K s t) (p : String) (v : Value) :
    SameOn K (s.enter p v) (t.enter p v) :=
  ⟨h.mode_eq, rfl, (h.bind p v).lookup_eq⟩

/-- A name of `K` stands for the same in both scopes. -/
theorem SameOn.lookup? (h : SameOn K s t) (hx : K (Text.lower x)) : t.lookup? x = s.lookup? x := by
  simp only [Scope.lookup?, h.lookup_eq _ hx, h.home_eq]

theorem SameOn.modeOf (h : SameOn K s t) (home : Home) : t.modeOf home = s.modeOf home := by
  cases home with
  | session => exact h.mode_eq
  | call => rfl

/-- A name outside of `K` may be bound. -/
theorem SameOn.of_bind (hx : ¬ K (Text.lower x)) (v : Value) : SameOn K s (s.bind x v) := by
  refine ⟨rfl, rfl, ?_⟩
  intro k hk
  rw [lookup_bind, if_neg]
  intro he
  exact hx (he ▸ hk)

end Closed
end Scope

namespace Eval
open Scope
variable {K : String → Prop} {s t : Scope} {e : Expr} {run run' : Scope → Expr → Except Error Value}

/-- What is evaluated brings only names of `K` with it. -/
theorem evalDeep_inside (hs : s.ClosedOn K) (he : ∀ y, e.reads y = true → K (Text.lower y))
    (n : Nat) : Gives (Value.Inside K) (evalDeep n s e) := by
  intro v hv
  have hpart {d e : Expr} (hd : d.Part e) (he : ∀ y, e.reads y = true → K (Text.lower y)) :
      ∀ y, d.reads y = true → K (Text.lower y) :=
    fun y hy => he y (hd.reads hy)
  -- The run is compared with itself: a function is alike to itself if its body stays within `K`.
  have hsim := Agree.simulation (C := Comparison.within K) (K := K) hpart (fun _ => trivial)
    (fun he hy => he _ hy) id
  have hm := hsim.evalDeep_matches n ⟨rfl, he, hs.agree⟩
  rw [Expr.mapNames_id, hv] at hm
  cases hm with
  | ok h =>
    cases h with
    | function hf => exact hf.2
    | numeric h =>
      cases v with
      | rational | complex | matrix => exact trivial
      | function | builtin | plain => cases h
    | plain | builtin => exact trivial

theorem evalRow_congr {r : List Expr} (h : ∀ e ∈ r, evalWith run' t e = evalWith run s e) :
    evalRow run' t r = evalRow run s r := by
  induction r with
  | nil => rfl
  | cons e es ih =>
    obtain ⟨he, hes⟩ := List.forall_mem_cons.mp h
    rw [evalRow, evalRow, he, ih hes]

theorem evalRows_congr {rows : List (List Expr)}
    (h : ∀ r ∈ rows, ∀ e ∈ r, evalWith run' t e = evalWith run s e) :
    evalRows run' t rows = evalRows run s rows := by
  induction rows with
  | nil => rfl
  | cons r rs ih =>
    obtain ⟨hr, hrs⟩ := List.forall_mem_cons.mp h
    rw [evalRows, evalRows, evalRow_congr hr, ih hrs]

/-- A call comes to the same if the name stands for the same and the body does. -/
theorem applyNamed_congr (h : SameOn K s t) {g : String} (hg : K (Text.lower g)) {a : Value}
    (hrun : ∀ f, s.lookup? g = some (.function f) →
      run' (t.enter f.param a) f.body = run (s.enter f.param a) f.body) :
    applyNamed run' t g a = applyNamed run s g a := by
  unfold applyNamed
  rw [h.lookup? hg]
  cases hl : s.lookup? g with
  | none => rfl
  | some v =>
    cases v with
    | function f => exact hrun f hl
    | builtin b home => simp only [h.modeOf home]
    | rational | complex | matrix | plain => rfl

/-- Scopes in which the names of `K` stand for the same give the same outcome. -/
theorem evalDeep_congr (h : SameOn K s t) (hs : s.ClosedOn K)
    (he : ∀ y, e.reads y = true → K (Text.lower y)) (n : Nat) :
    evalDeep n t e = evalDeep n s e := by
  -- Outside, on the depth of calls: the scopes of a call are again the same on `K`, since the
  -- argument brings no other names with it. Inside, on the expression.
  induction n generalizing s t e with
  | zero => rfl
  | succ n ihn =>
    induction e with
    | absent | number | imaginary | other => rfl
    | var y => simp only [evalDeep, evalWith, h.lookup? (he y (Expr.reads_var y))]
    | unary op e ih =>
      have hpart := ih fun y hy => he y (Expr.Part.reads (.unary op e) hy)
      simp only [evalDeep] at hpart
      simp only [evalDeep, evalWith, hpart]
    | binary op l r ihl ihr =>
      have hl := ihl fun y hy => he y (Expr.Part.reads (.left op l r) hy)
      have hr := ihr fun y hy => he y (Expr.Part.reads (.right op l r) hy)
      simp only [evalDeep] at hl hr
      simp only [evalDeep, evalWith, hl, hr]
    | call g e ih =>
      have harg := fun y hy => he y (Expr.Part.reads (.arg g e) hy)
      have hpart := ih harg
      simp only [evalDeep] at hpart
      simp only [evalDeep, evalWith, hpart]
      cases ha : evalWith (evalDeep n) s e with
      | error err => rfl
      | ok a =>
        have hg := he g (Expr.reads_call g e)
        have hinside := evalDeep_inside hs harg (n + 1) a ha
        apply applyNamed_congr h hg
        intro f hf
        exact ihn (h.enter f.param a) (hs.enter hinside f.param)
          (hs _ _ hg (lookup_of_function hf))
    | matrix rows ih =>
      have hrows := evalRows_congr fun r hr e hmem =>
        ih r hr e hmem fun y hy => he y (Expr.Part.reads (.element hr hmem) hy)
      simp only [evalDeep, evalWith, hrows]

end Eval

namespace Body
open Scope
variable {K : String → Prop} {s t : Scope} {x : String} {e : Expr}

theorem constantText_congr (h : t.eval e = s.eval e) : constantText t e = constantText s e := by
  unfold constantText
  rw [h]

theorem leaf_congr (h : t.eval e = s.eval e) (text : Except Error String) :
    leaf t x e text = leaf s x e text := by
  have hconstant : constant? t e = constant? s e := by
    unfold constant?
    rw [h]
  unfold leaf
  split
  · rfl
  · rw [hconstant]

theorem renderRow_congr {r : List Expr} (h : ∀ e ∈ r, render t x e = render s x e) :
    renderRow t x r = renderRow s x r := by
  induction r with
  | nil => rfl
  | cons e es ih =>
    obtain ⟨he, hes⟩ := List.forall_mem_cons.mp h
    rw [renderRow, renderRow, he, ih hes]

theorem renderRows_congr {rows : List (List Expr)}
    (h : ∀ r ∈ rows, ∀ e ∈ r, render t x e = render s x e) :
    renderRows t x rows = renderRows s x rows := by
  induction rows with
  | nil => rfl
  | cons r rs ih =>
    obtain ⟨hr, hrs⟩ := List.forall_mem_cons.mp h
    rw [renderRows, renderRows, renderRow_congr hr, ih hrs]

/-- A body is shown by the values of its parts, so it is shown the same. -/
theorem render_congr (h : SameOn K s t) (hs : s.ClosedOn K)
    (he : ∀ y, e.reads y = true → K (Text.lower y)) : render t x e = render s x e := by
  have heval {e : Expr} (he : ∀ y, e.reads y = true → K (Text.lower y)) : t.eval e = s.eval e :=
    Eval.evalDeep_congr h hs he _
  induction e with
  | absent | number | var | imaginary | other =>
    simp only [render, constantText_congr (heval he), leaf_congr (heval he)]
  | unary op e ih =>
    have hpart := ih fun y hy => he y (Expr.Part.reads (.unary op e) hy)
    simp only [render, hpart, constantText_congr (heval he), leaf_congr (heval he)]
  | binary op l r ihl ihr =>
    have hl := ihl fun y hy => he y (Expr.Part.reads (.left op l r) hy)
    have hr := ihr fun y hy => he y (Expr.Part.reads (.right op l r) hy)
    simp only [render, hl, hr, constantText_congr (heval he), leaf_congr (heval he)]
  | call g e ih =>
    have hpart := ih fun y hy => he y (Expr.Part.reads (.arg g e) hy)
    simp only [render, hpart, constantText_congr (heval he), leaf_congr (heval he)]
  | matrix rows ih =>
    have hrows := renderRows_congr fun r hr e hmem =>
      ih r hr e hmem fun y hy => he y (Expr.Part.reads (.element hr hmem) hy)
    simp only [render, hrows, constantText_congr (heval he), leaf_congr (heval he)]

end Body

def Scope.keep (s : Scope) (x : String) : Option Value → Scope
  | none => s
  | some v => s.bind x v

theorem Scope.SameOn.of_keep {K : String → Prop} {s : Scope} {x : String}
    (hx : ¬ K (Text.lower x)) (v : Option Value) : SameOn K s (s.keep x v) := by
  cases v with
  | none => exact .refl s
  | some v => exact .of_bind hx v

/-- Two names may be bound in either order. -/
theorem Scope.SameOn.keep_comm {K : String → Prop} {x x' : String}
    (hne : Text.lower x ≠ Text.lower x') (s : Scope) (v v' : Option Value) :
    SameOn K ((s.keep x v).keep x' v') ((s.keep x' v').keep x v) := by
  cases v with
  | none => exact .refl _
  | some v =>
    cases v' with
    | none => exact .refl _
    | some v' =>
      refine ⟨rfl, rfl, ?_⟩
      intro k _
      simp only [keep, lookup_bind]
      by_cases hk : k = Text.lower x
      · rw [if_pos hk, if_neg (hk ▸ hne), if_pos hk]
      · rw [if_neg hk, if_neg hk]

namespace Session
open Text Scope

/-- A line that binds `x`: the assignment of `e`, or the definition of a function with the body `e`.
A line that is carried out as a command binds nothing, also where it reads as an assignment. -/
structure Binds (text x : String) (e : Expr) : Prop where
  isCommand_eq : isCommand (trim text) = false
  read_eq : read (trim text) = .ok (some (.assign x e)) ∨
    ∃ p, read (trim text) = .ok (some (.define x p e))

/-- No line binds the imaginary unit. -/
theorem lower_ne_of_read {line x : String} {st : Statement} (h : read line = .ok (some st))
    (hx : x ∈ st.names) : lower x ≠ "i" := by
  obtain ⟨ts, -, hparse⟩ := read_eq_ok.mp h
  exact (Grammar.name_of_parse hparse x hx).1

/-- What a line shows and what it binds goes by the names that its right side uses. -/
theorem execute_binds {text x : String} {e : Expr} (h : Binds text x e) (s : Scope) :
    ∃ r v, ∀ t, SameOn (Uses s.bindings e) s t → execute t text = (r, t.keep x v) := by
  have hclosed := closedOn_uses s e
  have hread : ∀ y, e.reads y = true → Uses s.bindings e (lower y) := fun y hy => .read hy
  rcases h.read_eq with hassign | ⟨p, hdefine⟩
  · have hname : lower x ≠ "i" := lower_ne_of_read hassign (by simp [Statement.names])
    have hexec (t : Scope) : execute t text = assign t x e :=
      execute_eq_perform h.isCommand_eq hassign
    cases hv : s.eval e with
    | error err =>
      refine ⟨.error err, none, fun t ht => ?_⟩
      have htv : t.eval e = .error err := (evalDeep_congr ht hclosed hread _).trans hv
      rw [hexec, assign, htv, keep]
    | ok v =>
      refine ⟨some <$> v.result, some v, fun t ht => ?_⟩
      have htv : t.eval e = .ok v := (evalDeep_congr ht hclosed hread _).trans hv
      rw [hexec, assign, htv, keep]
      simp only [Scope.assign, hname, if_false]
  · have hname : lower x ≠ "i" := lower_ne_of_read hdefine (by simp [Statement.names])
    refine ⟨some <$> (s.bind x (.function ⟨p, e, some x⟩)).bodyText p e,
      some (.function ⟨p, e, some x⟩), fun t ht => ?_⟩
    -- The function is bound before its body is shown.
    have hbody : (t.bind x (.function ⟨p, e, some x⟩)).bodyText p e =
        (s.bind x (.function ⟨p, e, some x⟩)).bodyText p e :=
      congrArg Body.Rendering.text (Body.render_congr (ht.bind x _) (hclosed.bind hread) hread)
    rw [execute_eq_perform h.isCommand_eq hdefine, perform, define, keep]
    simp only [Scope.assign, hname, if_false, hbody]

/-- A session in degrees with `a = 2` and `f(x) = x + a`. -/
def adding : Scope where
  bindings := [("a", .rational 2),
    ("f", .function ⟨"x", .binary .add (.var "x") (.var "a"), some "f"⟩)]
  mode := .degrees
  home := .session

/-- Which names can matter in that session. -/
theorem uses_adding {e : Expr} {k : String} (h : Uses adding.bindings e k) :
    (∃ y, e.reads y = true ∧ k = lower y) ∨ k = "x" ∨ k = "a" := by
  cases h with
  | read hy => exact .inl ⟨_, hy, rfl⟩
  | inBody _ hf hy =>
    have hmem := mem_of_lookup hf
    simp only [adding, List.mem_cons, Prod.mk.injEq, reduceCtorEq, and_false, false_or,
      Value.function.injEq, List.not_mem_nil, or_false] at hmem
    simp only [hmem.2, Expr.reads, Expr.mentions, Expr.calls, Bool.or_eq_true, beq_iff_eq,
      Bool.false_eq_true, or_false] at hy
    rcases hy with rfl | rfl
    · exact .inr (.inl (by decide))
    · exact .inr (.inr (by decide))

/-- Evaluation goes by the names that an expression uses. So it stays the same when another name is
assigned, and lines that bind two names may change places if neither uses the other's name. -/
theorem outcome_of_uses :
    (∀ (s t : Scope) (e : Expr) (n : Nat), t.mode = s.mode → t.home = s.home →
      (∀ k, Uses s.bindings e k → t.bindings.lookup k = s.bindings.lookup k) →
      evalDeep n t e = evalDeep n s e) ∧
    (∀ (s t : Scope) (e : Expr) (x : String) (v : Value) (n : Nat), s.assign x v = .ok t →
      ¬ Uses s.bindings e (lower x) → evalDeep n t e = evalDeep n s e) ∧
    ∀ (s : Scope) (text text' x x' : String) (e e' : Expr), Binds text x e → Binds text' x' e' →
      lower x ≠ lower x' → ¬ Uses s.bindings e (lower x') → ¬ Uses s.bindings e' (lower x) →
      (execute (execute s text').2 text).1 = (execute s text).1 ∧
      (execute (execute s text).2 text').1 = (execute s text').1 ∧
      SameOn (fun _ => True) (execute (execute s text).2 text').2
        (execute (execute s text').2 text).2 := by
  have heval {s t : Scope} {e : Expr} (n : Nat) (h : SameOn (Uses s.bindings e) s t) :
      evalDeep n t e = evalDeep n s e :=
    evalDeep_congr h (closedOn_uses s e) (fun y hy => .read hy) n
  refine ⟨?_, ?_, ?_⟩
  · intro s t e n hmode hhome hlookup
    exact heval n ⟨hmode, hhome, hlookup⟩
  · intro s t e x v n ht hx
    unfold Scope.assign at ht
    split at ht
    · cases ht
    · cases ht
      exact heval n (.of_bind hx v)
  · intro s text text' x x' e e' hb hb' hne hx' hx
    obtain ⟨r, v, hexec⟩ := execute_binds hb s
    obtain ⟨r', v', hexec'⟩ := execute_binds hb' s
    rw [hexec s (.refl s), hexec' s (.refl s), hexec _ (.of_keep hx' v'),
      hexec' _ (.of_keep hx v)]
    exact ⟨rfl, rfl, .keep_comm hne s v v'⟩

/-- Neither `b = f(3)` nor `g(y) = y + a` uses the name that the other one binds. -/
theorem outcome_of_uses_adding :
    (Binds "b = f(3)" "b" (.call "f" (.number "3")) ∧
      Binds "g(y) = y + a" "g" (.binary .add (.var "y") (.var "a")) ∧
      ¬ Uses adding.bindings (.call "f" (.number "3")) "g" ∧
      ¬ Uses adding.bindings (.binary .add (.var "y") (.var "a")) "b") ∧
    (⟨adding.bindings.reverse, .degrees, .session⟩ : Scope).eval (.call "f" (.number "3")) =
      .ok (.rational 5) ∧
    (adding.bind "g" (.rational 7)).eval (.call "f" (.number "3")) = .ok (.rational 5) ∧
    (execute (execute adding "g(y) = y + a").2 "b = f(3)").1 = .ok (some "5") ∧
    SameOn (fun _ => True) (execute (execute adding "b = f(3)").2 "g(y) = y + a").2
      (execute (execute adding "g(y) = y + a").2 "b = f(3)").2 := by
  have hread : read (trim "b = f(3)") = .ok (some (.assign "b" (.call "f" (.number "3")))) := by cbv
  have hb : Binds "b = f(3)" "b" (.call "f" (.number "3")) := ⟨by cbv, .inl hread⟩
  have hg : Binds "g(y) = y + a" "g" (.binary .add (.var "y") (.var "a")) :=
    ⟨by cbv, .inr ⟨"y", by cbv⟩⟩
  have hnotg : ¬ Uses adding.bindings (.call "f" (.number "3")) "g" := by
    intro h
    rcases uses_adding h with ⟨y, hy, he⟩ | he | he
    · simp only [Expr.reads, Expr.mentions, Expr.calls, Bool.or_eq_true, beq_iff_eq,
        Bool.false_eq_true, or_false, false_or] at hy
      subst hy
      exact absurd he (by decide)
    · exact absurd he (by decide)
    · exact absurd he (by decide)
  have hnotb : ¬ Uses adding.bindings (.binary .add (.var "y") (.var "a")) "b" := by
    intro h
    rcases uses_adding h with ⟨y, hy, he⟩ | he | he
    · simp only [Expr.reads, Expr.mentions, Expr.calls, Bool.or_eq_true, beq_iff_eq,
        Bool.false_eq_true, or_false] at hy
      rcases hy with rfl | rfl <;> exact absurd he (by decide)
    · exact absurd he (by decide)
    · exact absurd he (by decide)
  have hfive : adding.eval (.call "f" (.number "3")) = .ok (.rational 5) := by
    with_unfolding_all rfl
  have hshown : (execute adding "b = f(3)").1 = .ok (some "5") := by
    rw [execute_eq_perform hb.isCommand_eq hread]
    with_unfolding_all rfl
  obtain ⟨hsame, -, hafter⟩ :=
    outcome_of_uses.2.2 adding _ _ "b" "g" _ _ hb hg (by decide) hnotg hnotb
  refine ⟨⟨hb, hg, hnotg, hnotb⟩, ?_, ?_, hsame.trans hshown, hafter⟩
  · rw [← hfive]
    refine outcome_of_uses.1 adding _ _ maxDepth ?_ ?_ ?_
    · rfl
    · rfl
    intro k _
    -- The two names differ, so their order does not matter.
    by_cases hk : k = "a"
    · subst hk
      rfl
    · simp [adding, lookup_cons, hk]
  · rw [← hfive]
    exact outcome_of_uses.2.1 adding _ _ "g" (.rational 7) _ rfl hnotg

end Session
end Reckoner
