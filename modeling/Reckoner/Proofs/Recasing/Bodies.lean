import Mathlib
import Reckoner.Proofs.Recasing.Texts

namespace Reckoner.Body
open Outcome
variable {s s' : Scope} {x x' : String} {e e' : Expr} {t t' : Except Error String}

def PartRecased (p p' : String × Bool) : Prop :=
  Text.Recased p.1 p'.1 ∧ p.2 = p'.2

structure Sum.Recased (a a' : Sum) : Prop where
  parts : List.Forall₂ PartRecased a.parts a'.parts
  constant : a.constant = a'.constant

structure Rendering.Recased (d d' : Rendering) : Prop where
  text : Accord Text.Recased d.text d'.text
  sum : Accord Sum.Recased d.sum d'.sum

section Parts
variable {p p' : String × Bool} {ps ps' : List (String × Bool)}

theorem partText_recased (h : PartRecased p p') (first : Bool) :
    Text.Recased (partText first p) (partText first p') := by
  obtain ⟨htext, hsign⟩ := h
  simp only [partText, ← hsign]
  split
  · exact .append rfl htext
  · split
    · exact htext
    · exact .append rfl htext

theorem laterTexts_recased (h : List.Forall₂ PartRecased ps ps') :
    List.Forall₂ Text.Recased (ps.map (partText false)) (ps'.map (partText false)) := by
  rw [List.forall₂_map_left_iff, List.forall₂_map_right_iff]
  exact h.imp fun _ _ hp => partText_recased hp false

theorem partTexts_recased (h : List.Forall₂ PartRecased ps ps') :
    List.Forall₂ Text.Recased (partTexts ps) (partTexts ps') := by
  cases h with
  | nil => exact .nil
  | cons hp hps => exact .cons (partText_recased hp true) (laterTexts_recased hps)

end Parts

namespace Sum.Recased
variable {a a' b b' : Sum}

theorem ofPart {u u' : String} (h : Text.Recased u u') :
    (Sum.ofPart u).Recased (Sum.ofPart u') :=
  ⟨.cons ⟨h, rfl⟩ .nil, rfl⟩

theorem add (ha : a.Recased a') (hb : b.Recased b') : (a.add b).Recased (a'.add b') where
  parts := List.rel_append ha.parts hb.parts
  constant := by simp only [Sum.add, ha.constant, hb.constant]

/-- The parts that are taken away have their signs turned in both. -/
theorem sub (ha : a.Recased a') (hb : b.Recased b') : (a.sub b).Recased (a'.sub b') where
  parts := by
    refine List.rel_append ha.parts ?_
    rw [List.forall₂_map_left_iff, List.forall₂_map_right_iff]
    exact hb.parts.imp fun _ _ h => ⟨h.1, congrArg (! ·) h.2⟩
  constant := by simp only [Sum.sub, ha.constant, hb.constant]

theorem text (h : a.Recased a') : Accord Text.Recased a.text a'.text := by
  simp only [Sum.text, ← h.constant]
  split
  · exact .ok (Text.Recased.intercalate (partTexts_recased h.parts) " ").trim
  · refine Accord.bind_self _ fun c => .ok ?_
    exact (Text.Recased.intercalate (.cons rfl (laterTexts_recased h.parts)) " ").trim

end Sum.Recased

theorem constantText_recased (hs : s.Recased s') (he : e.Recased e') :
    Text.Recased (constantText s e) (constantText s' e') := by
  have heval := hs.eval he
  simp only [constantText]
  generalize s.eval e = o, s'.eval e' = o' at heval ⊢
  cases heval with
  | error => exact Expr.text_recased he
  | @ok v v' hv =>
    have htext := hv.inBody
    simp only [hv.isAbsent_eq]
    split
    · rfl
    · generalize v.inBody = t, v'.inBody = t' at htext ⊢
      cases htext with
      | error => exact Expr.text_recased he
      | ok ht => exact ht

/-- A part without the parameter has the same value in both. -/
theorem constant?_recased (hs : s.Recased s') (he : e.Recased e') :
    constant? s e = constant? s' e' := by
  have heval := hs.eval he
  simp only [constant?]
  generalize s.eval e = o, s'.eval e' = o' at heval ⊢
  cases heval with
  | error => rfl
  | ok hv => cases hv <;> rfl

/-- A part is shown as it is written if the parameter stands in it, and by its value if not. -/
theorem shown_recased (hs : s.Recased s') (he : Expr.SpelledAlike x x' e e')
    (ht : Accord Text.Recased t t') :
    Accord Text.Recased (if e.mentions x then t else .ok (constantText s e))
      (if e'.mentions x' then t' else .ok (constantText s' e')) := by
  rw [he.mentions_eq fun h => h.2]
  split
  · exact ht
  · exact .ok (constantText_recased hs he.recased)

theorem leaf_recased (hs : s.Recased s') (he : Expr.SpelledAlike x x' e e')
    (ht : Accord Text.Recased t t') :
    Accord Sum.Recased (leaf s x e t) (leaf s' x' e' t') := by
  have hpart : Accord Sum.Recased (Sum.ofPart <$> t) (Sum.ofPart <$> t') :=
    ht.map fun _ _ h => .ofPart h
  have hmentions := he.mentions_eq fun h => h.2
  have hconstant := constant?_recased hs he.recased
  cases he with
  | absent => exact .error trivial
  | number | var | imaginary | unary | binary | call | matrix | other =>
    simp only [leaf, hmentions, hconstant]
    split
    · exact hpart
    · split
      · exact .ok ⟨.nil, rfl⟩
      · exact hpart

theorem sumOf_recased {a a' b b' : Except Error Sum} (op : BinOp) (ha : Accord Sum.Recased a a')
    (hb : Accord Sum.Recased b b') : Accord Sum.Recased (sumOf op a b) (sumOf op a' b') := by
  refine ha.bind fun l l' hl => hb.bind fun r r' hr => .ok ?_
  split
  · exact hl.sub hr
  · exact hl.add hr

theorem renderRow_recased {r r' : List Expr}
    (h : List.Forall₂ (fun e e' => (render s x e).Recased (render s' x' e')) r r') :
    Accord (List.Forall₂ Text.Recased) (renderRow s x r) (renderRow s' x' r') := by
  induction h with
  | nil => exact .ok .nil
  | cons he _ ih => exact he.text.bind fun _ _ ht => ih.bind fun _ _ hts => .ok (.cons ht hts)

theorem renderRows_recased {rows rows' : List (List Expr)}
    (h : List.Forall₂ (List.Forall₂ fun e e' => (render s x e).Recased (render s' x' e'))
      rows rows') :
    Accord (List.Forall₂ Text.Recased) (renderRows s x rows) (renderRows s' x' rows') := by
  induction h with
  | nil => exact .ok .nil
  | cons hr _ ih =>
    exact (renderRow_recased hr).bind fun _ _ hts =>
      ih.bind fun _ _ hrest => .ok (.cons (Expr.rowText_recased hts) hrest)

/-- Of bodies that differ in case only the same parts are without the parameter, if it is spelled
alike in both, and these have the same values; so the texts differ in case only. -/
theorem render_recased (hs : s.Recased s') (he : Expr.SpelledAlike x x' e e') :
    (render s x e).Recased (render s' x' e') := by
  -- A part that is no sum is rendered by its text, which is all that there is to compare.
  have hleaf {e e' : Expr} {t t' : Except Error String} (he : Expr.SpelledAlike x x' e e')
      (ht : Accord Text.Recased t t') :
      Rendering.Recased ⟨t, leaf s x e t⟩ ⟨t', leaf s' x' e' t'⟩ :=
    ⟨ht, leaf_recased hs he ht⟩
  have hatom {e e' : Expr} (he : Expr.SpelledAlike x x' e e') :
      Text.Recased (if e.mentions x then e.text else constantText s e)
        (if e'.mentions x' then e'.text else constantText s' e') := by
    rw [he.mentions_eq fun h => h.2]
    split
    · exact Expr.text_recased he.recased
    · exact constantText_recased hs he.recased
  induction he using Expr.Alike.induct with
  | absent => exact hleaf .absent (.ok (hatom .absent))
  | number t => exact hleaf (.number t) (.ok (hatom (.number t)))
  | var h => exact hleaf (.var h) (.ok (hatom (.var h)))
  | imaginary => exact hleaf .imaginary (.ok (hatom .imaginary))
  | other d => exact hleaf (.other d) (.ok (hatom (.other d)))
  | unary op h ih =>
    have he := Expr.Alike.unary op h
    exact hleaf he (shown_recased hs he (ih.text.map fun _ _ ht => .append rfl ht))
  | binary op hl hr ihl ihr =>
    have he := Expr.Alike.binary op hl hr
    simp only [render]
    split
    · have hsum := sumOf_recased op ihl.sum ihr.sum
      exact ⟨shown_recased hs he (hsum.bind fun _ _ h => h.text), hsum⟩
    · refine hleaf he (shown_recased hs he ?_)
      exact ihl.text.bind fun _ _ ht => ihr.text.bind fun _ _ hu =>
        .ok (Expr.joined_recased op hl hr ht hu)
  | call hf h ih =>
    have he := Expr.Alike.call hf h
    exact hleaf he (shown_recased hs he (ih.text.map fun _ _ ht => hf.append (ht.between "(" ")")))
  | matrix h ih =>
    have he := Expr.Alike.matrix h
    have hrows := renderRows_recased (Expr.Alike.rows ih)
    exact hleaf he (shown_recased hs he (hrows.map fun _ _ ht => Expr.rowsText_recased ht))

end Reckoner.Body
