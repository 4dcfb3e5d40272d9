import Mathlib
import Reckoner.Proofs.Recasing.Eval
import Reckoner.Session

namespace Reckoner
open Outcome

namespace Text.Recased
variable {s s' t t' : String} {ts ts' : List String}

theorem refl (s : String) : Recased s s :=
  rfl

theorem append (hs : Recased s s') (ht : Recased t t') : Recased (s ++ t) (s' ++ t') := by
  rw [Recased, toLower_append, toLower_append, hs, ht]

/-- A text between two fixed ones. -/
theorem between (h : Recased s s') (left right : String) :
    Recased (left ++ s ++ right) (left ++ s' ++ right) :=
  (append rfl h).append rfl

theorem intercalate (h : List.Forall₂ Recased ts ts') (sep : String) :
    Recased (String.intercalate sep ts) (String.intercalate sep ts') := by
  have hmap : ts.map String.toLower = ts'.map String.toLower := by
    rw [← List.forall₂_eq_eq_eq, List.forall₂_map_left_iff, List.forall₂_map_right_iff]
    exact h
  rw [Recased, toLower_intercalate, toLower_intercalate, hmap]

end Text.Recased

namespace Datum
variable {ts ts' : List String}

theorem tupleText_recased (h : List.Forall₂ Text.Recased ts ts') :
    Text.Recased (tupleText ts) (tupleText ts') := by
  have hcomma := (Text.Recased.intercalate h ", ").between "(" ")"
  cases h with
  | nil => exact hcomma
  | cons ht hts =>
    cases hts with
    | nil => exact ht.between "(" ",)"
    | cons => exact hcomma

end Datum

namespace Expr
variable {V C : String → String → Prop} {e e' : Expr} {r r' : List Expr}
  {rows rows' : List (List Expr)} {t t' : String} {ts ts' : List String}

section Data
open Datum

theorem notatedRow_recased
    (h : List.Forall₂ (fun e e' => Text.Recased e.toDatum.notated e'.toDatum.notated) r r') :
    List.Forall₂ Text.Recased (notatedItems (toDatumRow r)) (notatedItems (toDatumRow r')) := by
  induction h with
  | nil => exact .nil
  | cons he _ ih => exact .cons he ih

theorem notatedRows_recased
    (h : List.Forall₂
      (List.Forall₂ fun e e' => Text.Recased e.toDatum.notated e'.toDatum.notated) rows rows') :
    List.Forall₂ Text.Recased (notatedItems (toDatumRows rows))
      (notatedItems (toDatumRows rows')) := by
  induction h with
  | nil => exact .nil
  | cons hr _ ih =>
    exact .cons ((Text.Recased.intercalate (notatedRow_recased hr) ", ").between "[" "]") ih

/-- The notation of an expression as data. -/
theorem notated_recased (h : Recased e e') :
    Text.Recased e.toDatum.notated e'.toDatum.notated := by
  induction h using Alike.induct with
  | absent | number | imaginary | other => rfl
  | var h => exact tupleText_recased (.cons rfl (.cons h.quoted .nil))
  | unary op _ ih => exact tupleText_recased (.cons rfl (.cons rfl (.cons ih .nil)))
  | binary op _ _ ihl ihr =>
    exact tupleText_recased (.cons rfl (.cons rfl (.cons ihl (.cons ihr .nil))))
  | call hf _ ih => exact tupleText_recased (.cons rfl (.cons hf.quoted (.cons ih .nil)))
  | matrix _ ih =>
    have hrows := notatedRows_recased (Expr.Alike.rows ih)
    have hlist := (Text.Recased.intercalate hrows ", ").between "[" "]"
    exact tupleText_recased (.cons rfl (.cons hlist .nil))

theorem shown_recased (h : Recased e e') : Text.Recased e.toDatum.shown e'.toDatum.shown := by
  have hnotated := notated_recased h
  cases h with
  | other d => rfl
  | absent | number | var | imaginary | unary | binary | call | matrix => exact hnotated

end Data

/-- Parentheses go by the signs of an expression, which have no case. -/
theorem operand_recased (op : BinOp) (h : e.Alike V C e') (ht : Text.Recased t t') :
    Text.Recased (operand op e t) (operand op e' t') := by
  cases h with
  | binary =>
    simp only [operand]
    split
    · exact ht.between "(" ")"
    · exact ht
  | absent | number | var | imaginary | unary | call | matrix | other => exact ht

theorem joined_recased (op : BinOp) {l l' r r' : Expr} {u u' : String} (hl : l.Alike V C l')
    (hr : r.Alike V C r') (ht : Text.Recased t t') (hu : Text.Recased u u') :
    Text.Recased (joined op l r t u) (joined op l' r' t' u') :=
  ((operand_recased op hl ht).append rfl).append (operand_recased op hr hu)

theorem rowText_recased (h : List.Forall₂ Text.Recased ts ts') :
    Text.Recased (rowText ts) (rowText ts') :=
  (Text.Recased.intercalate h " , ").between "[ " " ]"

theorem rowsText_recased (h : List.Forall₂ Text.Recased ts ts') :
    Text.Recased (rowsText ts) (rowsText ts') :=
  (Text.Recased.intercalate h " ; ").between "[ " " ]"

theorem elementTexts_recased (h : List.Forall₂ (fun e e' => Text.Recased e.text e'.text) r r') :
    List.Forall₂ Text.Recased (elementTexts r) (elementTexts r') := by
  induction h with
  | nil => exact .nil
  | cons he _ ih => exact .cons he ih

theorem rowTexts_recased
    (h : List.Forall₂ (List.Forall₂ fun e e' => Text.Recased e.text e'.text) rows rows') :
    List.Forall₂ Text.Recased (rowTexts rows) (rowTexts rows') := by
  induction h with
  | nil => exact .nil
  | cons hr _ ih => exact .cons (rowText_recased (elementTexts_recased hr)) ih

/-- Expressions that differ in case only have texts that do. -/
theorem text_recased (h : Recased e e') : Text.Recased e.text e'.text := by
  induction h using Alike.induct with
  | absent | number | imaginary | other => rfl
  | var h => exact h
  | unary op h ih =>
    cases h with
    | binary => exact .append rfl (ih.between "(" ")")
    | absent | number | var | imaginary | unary | call | matrix | other => exact .append rfl ih
  | binary op hl hr ihl ihr => exact joined_recased op hl hr ihl ihr
  | call hf h => exact notated_recased (.call hf h)
  | matrix _ ih =>
    exact rowsText_recased (rowTexts_recased (Expr.Alike.rows ih))

end Expr

namespace Value.Recased
variable {v v' : Value}

theorem functionText {f f' : UserFunction} (h : f.Recased f') :
    Text.Recased (functionText f) (functionText f') := by
  have hname : Text.Recased (f.name.getD "None") (f'.name.getD "None") := by
    have hname := h.name
    generalize f.name = o, f'.name = o' at hname ⊢
    cases hname with
    | none => rfl
    | some h => exact h
  have hbody := Expr.shown_recased h.body
  exact (((((Text.Recased.append rfl hname).append rfl).append h.param).append rfl).append
    hbody).append rfl

theorem text? (h : v.Recased v') : Accord Text.Recased v.text? v'.text? := by
  cases h with
  | same => exact Accord.refl Text.Recased.refl _
  | function h => exact .ok (functionText h)

/-- Values that differ in case only have texts that do, or both are too long. -/
theorem result (h : v.Recased v') : Accord Text.Recased v.result v'.result := by
  cases h with
  | same => exact Accord.refl Text.Recased.refl _
  | function h => exact .ok (Expr.text_recased h.body)

theorem inBody (h : v.Recased v') : Accord Text.Recased v.inBody v'.inBody := by
  cases h with
  | same => exact Accord.refl Text.Recased.refl _
  | function h => exact text? (.function h)

end Value.Recased

end Reckoner
