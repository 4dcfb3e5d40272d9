import Mathlib.Data.List.Forall2
import Reckoner.Error

namespace Reckoner.Outcome

variable {ε α β : Type} {a : α} {b : β} {e : ε} {x : Except ε α}

@[simp]
theorem ok_bind (a : α) (f : α → Except ε β) : (Except.ok a >>= f) = f a := rfl

@[simp]
theorem error_bind (e : ε) (f : α → Except ε β) : (Except.error e >>= f) = .error e := rfl

@[simp]
theorem map_ok (f : α → β) (a : α) : (f <$> (Except.ok a : Except ε α)) = .ok (f a) := rfl

@[simp]
theorem map_error (f : α → β) (e : ε) : (f <$> (Except.error e : Except ε α)) = .error e := rfl

@[simp]
theorem pure_eq_ok (a : α) : (pure a : Except ε α) = .ok a := rfl

/-- A sequence of steps succeeds when each of them does. -/
theorem bind_eq_ok {f : α → Except ε β} : (x >>= f) = .ok b ↔ ∃ a, x = .ok a ∧ f a = .ok b := by
  cases x <;> simp

theorem map_eq_ok {f : α → β} : (f <$> x) = .ok b ↔ ∃ a, x = .ok a ∧ f a = b := by
  cases x <;> simp

theorem map_eq_error {f : α → β} : (f <$> x) = .error e ↔ x = .error e := by
  cases x <;> simp

/-- What comes out, if anything does, satisfies `P`. -/
def Gives (P : α → Prop) (x : Except ε α) : Prop :=
  ∀ v, x = .ok v → P v

def Fails (E : ε → Prop) (x : Except ε α) : Prop :=
  ∀ e, x = .error e → E e

section Conditions
variable {P : β → Prop} {E : ε → Prop}

@[simp]
theorem gives_ok : Gives P (.ok b : Except ε β) ↔ P b := by
  simp [Gives]

@[simp]
theorem gives_error (e : ε) : Gives P (.error e) := nofun

@[simp]
theorem gives_bind {f : α → Except ε β} :
    Gives P (x >>= f) ↔ Gives (fun a => Gives P (f a)) x := by
  cases x <;> simp [Gives]

@[simp]
theorem gives_map {f : α → β} : Gives P (f <$> x) ↔ Gives (fun a => P (f a)) x := by
  cases x <;> simp [Gives]

@[simp]
theorem gives_true (x : Except ε α) : Gives (fun _ => True) x :=
  fun _ _ => trivial

@[simp]
theorem fails_ok (a : α) : Fails E (.ok a) := nofun

@[simp]
theorem fails_error : Fails E (.error e : Except ε α) ↔ E e := by
  simp [Fails]

/-- The error of a sequence is that of one of its steps. -/
theorem Fails.bind {f : α → Except ε β} (hx : Fails E x) (hf : ∀ a, Fails E (f a)) :
    Fails E (x >>= f) := by
  cases x with
  | error e => simpa using hx
  | ok a => exact hf a

@[simp]
theorem fails_map {f : α → β} : Fails E (f <$> x) ↔ Fails E x := by
  cases x <;> simp

end Conditions

section Lists
variable {f : α → Except ε β} {l : List α}

/-- Steps for all elements of a list succeed if each of them does. -/
theorem exists_mapM_eq_ok : (∃ bs, l.mapM f = .ok bs) ↔ ∀ a ∈ l, ∃ b, f a = .ok b := by
  induction l with
  | nil => simp
  | cons a l ih =>
    rw [List.forall_mem_cons, ← ih, List.mapM_cons]
    cases f a with
    | error e => simp
    | ok b => cases l.mapM f <;> simp

/-- The results of a list of steps stand in the places of the elements. -/
theorem Gives.forall₂_mapM {R : α → β → Prop} (h : ∀ a ∈ l, Gives (R a) (f a)) :
    Gives (List.Forall₂ R l) (l.mapM f) := by
  induction l with
  | nil => exact gives_ok.mpr .nil
  | cons a l ih =>
    obtain ⟨ha, hl⟩ := List.forall_mem_cons.mp h
    rw [List.mapM_cons, gives_bind]
    intro b hb
    rw [gives_bind]
    intro bs hbs
    exact gives_ok.mpr (.cons (ha b hb) (ih hl bs hbs))

theorem Gives.mapM {P : β → Prop} (h : ∀ a ∈ l, Gives P (f a)) :
    Gives (fun bs => ∀ b ∈ bs, P b) (l.mapM f) := by
  intro bs hbs
  have hall : List.Forall₂ (fun _ b => P b) l bs := Gives.forall₂_mapM h bs hbs
  clear h hbs
  induction hall with
  | nil => exact List.forall_mem_nil _
  | cons hb _ ih => exact List.forall_mem_cons.mpr ⟨hb, ih⟩

/-- The error of a list of steps is that of one of them. -/
theorem Fails.mapM {E : ε → Prop} (h : ∀ a ∈ l, Fails E (f a)) : Fails E (l.mapM f) := by
  induction l with
  | nil => simp
  | cons a l ih =>
    obtain ⟨ha, hl⟩ := List.forall_mem_cons.mp h
    rw [List.mapM_cons]
    exact ha.bind fun b => (ih hl).bind fun bs => fails_ok (b :: bs)

/-- Steps that leave each element as it is leave the list as it is. -/
theorem mapM_eq_self {f : α → Except ε α} (h : ∀ a ∈ l, f a = .ok a) : l.mapM f = .ok l := by
  induction l with
  | nil => rfl
  | cons a l ih =>
    obtain ⟨ha, hl⟩ := List.forall_mem_cons.mp h
    rw [List.mapM_cons, ha, ih hl]
    rfl

end Lists

/-- `x` is `y`, unless calls were nested too deep for `x`. -/
def Cut (x y : Except Error α) : Prop :=
  x = .error .recursion ∨ x = y

namespace Cut
variable {x y z : Except Error α}

theorem refl (x : Except Error α) : Cut x x :=
  .inr rfl

/-- Where calls are nested too deep in a step, they are in the whole. -/
theorem bind {f g : α → Except Error β} (hxy : Cut x y) (hfg : ∀ a, Cut (f a) (g a)) :
    Cut (x >>= f) (y >>= g) := by
  rcases hxy with rfl | rfl
  · exact .inl rfl
  · cases x with
    | error e => exact .inr rfl
    | ok a => exact hfg a

theorem map (f : α → β) (hxy : Cut x y) : Cut (f <$> x) (f <$> y) := by
  rcases hxy with rfl | rfl
  · exact .inl rfl
  · exact .inr rfl

/-- What is found is not cut short. -/
theorem eq_ok (hxy : Cut x y) (hx : x = .ok a) : y = .ok a := by
  rcases hxy with h | rfl
  · rw [hx] at h
    cases h
  · exact hx

end Cut

inductive Matches {α β : Type} (E : ε → ε → Prop) (V : α → β → Prop) :
    Except ε α → Except ε β → Prop where
  | ok {a : α} {b : β} (h : V a b) : Matches E V (.ok a) (.ok b)
  | error {e e' : ε} (h : E e e') : Matches E V (.error e) (.error e')

namespace Matches
variable {γ δ : Type} {E : ε → ε → Prop} {V : α → β → Prop} {W : γ → δ → Prop} {y : Except ε β}

/-- Two sequences come to matching outcomes when their steps do. -/
theorem bind {f : α → Except ε γ} {g : β → Except ε δ} (h : Matches E V x y)
    (hfg : ∀ a b, V a b → Matches E W (f a) (g b)) : Matches E W (x >>= f) (y >>= g) := by
  cases h with
  | ok h => exact hfg _ _ h
  | error h => exact .error h

theorem mono {V' : α → β → Prop} (h : Matches E V x y) (hV : ∀ a b, V a b → V' a b) :
    Matches E V' x y := by
  cases h with
  | ok h => exact .ok (hV _ _ h)
  | error h => exact .error h

theorem map {f : α → γ} {g : β → δ} (h : Matches E V x y) (hfg : ∀ a b, V a b → W (f a) (g b)) :
    Matches E W (f <$> x) (g <$> y) := by
  cases h with
  | ok h => exact .ok (hfg _ _ h)
  | error h => exact .error h

/-- An outcome matches itself if its value is related to itself. -/
theorem self {V : α → α → Prop} (hE : ∀ e, E e e) (hV : ∀ a, x = .ok a → V a a) :
    Matches E V x x := by
  cases x with
  | error e => exact .error (hE e)
  | ok a => exact .ok (hV a rfl)

theorem mapM {f : α → Except ε γ} {g : β → Except ε δ} {as : List α} {bs : List β}
    (h : List.Forall₂ (fun a b => Matches E W (f a) (g b)) as bs) :
    Matches E (List.Forall₂ W) (as.mapM f) (bs.mapM g) := by
  induction h with
  | nil => exact .ok .nil
  | cons hab _ ih =>
    rw [List.mapM_cons, List.mapM_cons]
    exact hab.bind fun _ _ hc => ih.bind fun _ _ hcs => .ok (.cons hc hcs)

end Matches

/-- Both runs come to values that `V` relates, or both fail. -/
abbrev Accord (V : α → β → Prop) : Except ε α → Except ε β → Prop :=
  Matches (fun _ _ => True) V

theorem Accord.refl {V : α → α → Prop} (hV : ∀ a, V a a) (x : Except ε α) : Accord V x x :=
  .self (fun _ => trivial) fun a _ => hV a

/-- One run that goes on in two ways. -/
theorem Accord.bind_self {γ δ : Type} {W : γ → δ → Prop} {f : α → Except ε γ} {g : α → Except ε δ}
    (x : Except ε α) (hfg : ∀ a, Accord W (f a) (g a)) : Accord W (x >>= f) (x >>= g) := by
  cases x with
  | error e => exact .error trivial
  | ok a => exact hfg a

end Reckoner.Outcome
