import Mathlib
import Reckoner.Proofs.Recasing.Texts

namespace Reckoner
open Outcome
variable {s s' : Scope} {x x' : String} {v v' : Value}

namespace Scope.Recased

theorem assign (h : s.Recased s') (hx : Text.Recased x x') (hv : v.Recased v') :
    Accord Recased (s.assign x v) (s'.assign x' v') := by
  simp only [Scope.assign, hx.lower_eq]
  split
  · exact .error trivial
  · exact .ok (h.bind hx hv)

/-- The unit of angles is named without regard to case. -/
theorem setMode (h : s.Recased s') (hx : Text.Recased x x') :
    Accord Recased (s.setMode x) (s'.setMode x') := by
  simp only [Scope.setMode, hx.lower_eq]
  split
  · exact .error trivial
  · exact .ok ⟨h.bindings, rfl, h.home⟩

end Scope.Recased

namespace Sorted
variable {α β : Type*} {R : α → β → Prop} {le : α → α → Bool} {le' : β → β → Bool} {a : α} {b : β}
  {as : List α} {bs : List β}

theorem forall₂_insert (hle : ∀ {a b c d}, R a b → R c d → le a c = le' b d) (hab : R a b)
    (h : List.Forall₂ R as bs) : List.Forall₂ R (insert le a as) (insert le' b bs) := by
  induction h with
  | nil => exact .cons hab .nil
  | cons hcd h ih =>
    simp only [insert, hle hab hcd]
    split
    · exact .cons hab (.cons hcd h)
    · exact .cons hcd ih

/-- Lists with elements of the same ranks are put in the same order. -/
theorem forall₂_sort (hle : ∀ {a b c d}, R a b → R c d → le a c = le' b d)
    (h : List.Forall₂ R as bs) : List.Forall₂ R (sort le as) (sort le' bs) := by
  induction h with
  | nil => exact .nil
  | cons hab _ ih => exact forall₂_insert hle hab ih

end Sorted

namespace Plot
variable {f f' : UserFunction}

theorem plotted_eq (h : v.Recased v') : v.plotted = v'.plotted := by
  cases h <;> rfl

theorem sample_recased (hs : s.Recased s') (hf : f.Recased f') (a : Float) :
    Accord Eq (sample s f a) (sample s' f' a) := by
  refine Accord.bind_self (Rational.ofDouble a) fun q => ?_
  have hcall : Scope.Recased { s with home := .call } { s' with home := .call } :=
    ⟨hs.bindings, hs.mode, rfl⟩
  refine (hcall.assign hf.param (.same _)).bind fun t t' ht => ?_
  refine (ht.eval hf.body).bind fun v v' hv => ?_
  rw [plotted_eq hv]
  exact Accord.refl (fun _ => rfl) _

/-- Functions that differ in case only are drawn by the same points. -/
theorem samples_recased (hs : s.Recased s') (hf : f.Recased f') (start stop : Float) (n : Int) :
    (Request.mk f start stop n).samples s = (Request.mk f' start stop n).samples s' := by
  refine List.map_congr_left fun a _ => ?_
  have hsample := sample_recased hs hf a
  simp only
  generalize sample s f a = o, sample s' f' a = o' at hsample ⊢
  cases hsample with
  | error => rfl
  | ok h => rw [h]

theorem run_recased (hs : s.Recased s') (hf : f.Recased f') (start stop : Float) (n : Int) :
    Accord Eq (run s (.function f) start stop n) (run s' (.function f') start stop n) := by
  have hpicture : (Request.mk f start stop n).picture s =
      (Request.mk f' start stop n).picture s' := by
    simp only [Request.picture, samples_recased hs hf]
    rfl
  simp only [run, request, Request.check]
  split
  · exact .error trivial
  · split
    · exact .error trivial
    · split
      · exact .error trivial
      · exact .ok hpicture

end Plot

namespace Session

/-- What is bound is listed in one order. -/
theorem listing_recased (hs : s.Recased s') : Accord Text.Recased (listing s) (listing s') := by
  have hempty : s.bindings.isEmpty = s'.bindings.isEmpty := by
    have hbindings := hs.bindings
    generalize s.bindings = bs, s'.bindings = bs' at hbindings ⊢
    cases hbindings <;> rfl
  simp only [listing, hempty]
  split
  · exact .ok (Text.Recased.refl _)
  · have hsorted : List.Forall₂ (fun b b' => b'.1 = b.1 ∧ b.2.Recased b'.2)
        (Sorted.sort (fun a b => decide (a.1 ≤ b.1)) s.bindings)
        (Sorted.sort (fun a b => decide (a.1 ≤ b.1)) s'.bindings) :=
      Sorted.forall₂_sort (fun hab hcd => by rw [hab.1, hcd.1]) hs.bindings
    refine Matches.bind (Matches.mapM (hsorted.imp fun b b' hb => ?_)) fun _ _ h =>
      .ok (Text.Recased.intercalate h "\n")
    rw [hb.1]
    exact hb.2.result.map fun _ _ h => .append rfl h

theorem angles_recased {ws ws' : List String} (hs : s.Recased s')
    (h : List.Forall₂ Text.Recased ws ws') :
    Accord (fun a a' => Text.Recased a.1 a'.1 ∧ a.2.Recased a'.2) (angles s ws)
      (angles s' ws') := by
  cases h with
  | nil => exact .error trivial
  | cons hw h =>
    cases h with
    | nil =>
      refine .ok ⟨?_, hs⟩
      rw [hs.mode]
      exact Text.Recased.refl _
    | @cons m m' _ _ hm h =>
      cases h with
      | cons => exact .error trivial
      | nil =>
        have hset := hs.setMode hm
        simp only [angles]
        generalize s.setMode m = o, s'.setMode m' = o' at hset ⊢
        cases hset with
        | error => exact .error trivial
        | ok ht =>
          refine .ok ⟨?_, ht⟩
          rw [ht.mode]
          exact Text.Recased.refl _

/-- The bounds of a plot are read without regard to case. -/
theorem plotBound_recased {w w' : String} (h : Text.Recased w w') : plotBound w = plotBound w' := by
  rw [plotBound, Double.read?, Numeral.decimal?_of_recased h, plotBound, Double.read?]

theorem plotCount_recased {ws ws' : List String} (h : List.Forall₂ Text.Recased ws ws') :
    plotCount ws = plotCount ws' := by
  cases h with
  | nil => rfl
  | @cons w w' _ _ hw =>
    simp only [plotCount, Rational.readInteger, ← Numeral.integer?_of_recased hw]
    cases Numeral.integer? w <;> rfl

theorem plot_recased {ws ws' : List String} (hs : s.Recased s')
    (h : List.Forall₂ Text.Recased ws ws') : Accord Eq (plot s ws) (plot s' ws') := by
  obtain _ | ⟨-, _ | ⟨hname, _ | ⟨hstart, _ | ⟨hstop, hmore⟩⟩⟩⟩ := h
  iterate 4 exact .error trivial
  simp only [plot, plotBound_recased hstart, plotBound_recased hstop, plotCount_recased hmore]
  refine Accord.bind_self _ fun start => Accord.bind_self _ fun stop => ?_
  refine Accord.bind_self _ fun n => ?_
  have hlookup := hs.lookup? hname
  generalize s.lookup? _ = o, s'.lookup? _ = o' at hlookup ⊢
  cases hlookup with
  | none => exact .error trivial
  | @some v v' hv =>
    cases hv with
    | function hf => exact Plot.run_recased hs hf start stop n
    | same =>
      cases v with
      | function f => exact Plot.run_recased hs (.refl f) start stop n
      | rational | complex | matrix | builtin | plain => exact .error trivial

end Session
end Reckoner
