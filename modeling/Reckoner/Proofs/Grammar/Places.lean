import Reckoner.Proofs.Grammar.Alike

namespace Reckoner

def Token.face (t : Token) : TokenKind × String :=
  (t.kind, t.text)

namespace Grammar
open Reckoner.Parser

theorem kinds_of_faces {ts us : List Token} (h : us.map Token.face = ts.map Token.face) :
    us.map Token.kind = ts.map Token.kind := by
  have hkinds (ts : List Token) : ts.map Token.kind = (ts.map Token.face).map Prod.fst := by
    rw [List.map_map]
    rfl
  rw [hkinds, hkinds, h]

theorem alike_of_faces {ts us : List Token} (h : us.map Token.face = ts.map Token.face) :
    List.Forall₂ (Token.Alike Eq) ts us := by
  induction ts generalizing us with
  | nil =>
    cases List.map_eq_nil_iff.mp h
    exact .nil
  | cons t ts ih =>
    obtain ⟨u, us, rfl, hu, hus⟩ := List.map_eq_cons_iff.mp h
    have hkind : u.kind = t.kind := congrArg Prod.fst hu
    have htext : u.text = t.text := congrArg Prod.snd hu
    exact .cons ⟨hkind, fun _ => htext.symm, fun _ => htext⟩ (ih hus)

theorem keepsUnit_eq : KeepsUnit Eq :=
  ⟨fun h => by rw [h], fun h => by rw [h]⟩

/-- Statements whose names are equal are equal. -/
theorem Statement.eq_of_alike {st st' : Statement} (h : st.Alike Eq st') : st = st' := by
  cases h with
  | expression h | request h => rw [h.eq_of_eq]
  | assign hx h => rw [hx, h.eq_of_eq]
  | define hf hx h => rw [hf, hx, h.eq_of_eq]
  | equation hl hr => rw [hl.eq_of_eq, hr.eq_of_eq]

/-- Lines of tokens with the same faces make the same statement. -/
theorem parse_of_faces {ts us : List Token} {st : Statement}
    (h : us.map Token.face = ts.map Token.face) (hp : parse ts = .ok (some st)) :
    parse us = .ok (some st) := by
  obtain ⟨st', hp', hst⟩ := parse_alike keepsUnit_eq (alike_of_faces h) hp
  rw [Statement.eq_of_alike hst]
  exact hp'

/-- Lines of tokens with the same faces make the same statement, or both none. -/
theorem parse_ok_of_faces {ts us : List Token} {st : Option Statement}
    (h : us.map Token.face = ts.map Token.face) (hp : parse ts = .ok st) : parse us = .ok st := by
  cases st with
  | some st => exact parse_of_faces h hp
  | none =>
    cases parse_eq_none.mp hp
    cases List.map_eq_nil_iff.mp h
    exact hp

end Grammar
end Reckoner
