import Reckoner.Equation.Expand

namespace Reckoner.Expr

/-- What passes from the parts of an expression to the whole holds of every expression. -/
@[elab_as_elim, induction_eliminator]
theorem induct {P : Expr → Prop} (absent : P .absent) (number : ∀ t, P (.number t))
    (var : ∀ x, P (.var x)) (imaginary : P .imaginary)
    (unary : ∀ op e, P e → P (.unary op e))
    (binary : ∀ op l r, P l → P r → P (.binary op l r))
    (call : ∀ f e, P e → P (.call f e))
    (matrix : ∀ rows : List (List Expr), (∀ r ∈ rows, ∀ e ∈ r, P e) → P (.matrix rows))
    (other : ∀ d, P (.other d)) (e : Expr) : P e := by
  refine @Expr.rec P (fun rows => ∀ r ∈ rows, ∀ e ∈ r, P e) (fun r => ∀ e ∈ r, P e)
    absent number var imaginary unary binary call matrix other ?_ ?_ ?_ ?_ e
  · intro r hr
    cases hr
  · intro r rows hr hrows
    exact List.forall_mem_cons.mpr ⟨hr, hrows⟩
  · intro e he
    cases he
  · intro e r he hr
    exact List.forall_mem_cons.mpr ⟨he, hr⟩

section Rows
variable {x : String} {σ : String → Expr}

theorem mentionsRow_eq (r : List Expr) : mentionsRow x r = r.any (mentions x) := by
  induction r with
  | nil => rfl
  | cons e es ih => simp only [mentionsRow, ih, List.any_cons]

theorem mentionsRows_eq (rows : List (List Expr)) :
    mentionsRows x rows = rows.any (fun r => r.any (mentions x)) := by
  induction rows with
  | nil => rfl
  | cons r rs ih => simp only [mentionsRows, mentionsRow_eq, ih, List.any_cons]

theorem hasVariablesRow_eq (r : List Expr) : hasVariablesRow r = r.any hasVariables := by
  induction r with
  | nil => rfl
  | cons e es ih => simp only [hasVariablesRow, ih, List.any_cons]

theorem hasVariablesRows_eq (rows : List (List Expr)) :
    hasVariablesRows rows = rows.any (fun r => r.any hasVariables) := by
  induction rows with
  | nil => rfl
  | cons r rs ih => simp only [hasVariablesRows, hasVariablesRow_eq, ih, List.any_cons]

theorem bindVarsRow_eq (r : List Expr) : bindVarsRow σ r = r.map (bindVars σ) := by
  induction r with
  | nil => rfl
  | cons e es ih => simp only [bindVarsRow, ih, List.map_cons]

theorem bindVarsRows_eq (rows : List (List Expr)) :
    bindVarsRows σ rows = rows.map (List.map (bindVars σ)) := by
  induction rows with
  | nil => rfl
  | cons r rs ih => simp only [bindVarsRows, bindVarsRow_eq, ih, List.map_cons]

theorem substRow_eq {a : Expr} (r : List Expr) : substRow x a r = r.map (subst x a) := by
  induction r with
  | nil => rfl
  | cons e es ih => simp only [substRow, ih, List.map_cons]

theorem substRows_eq {a : Expr} (rows : List (List Expr)) :
    substRows x a rows = rows.map (List.map (subst x a)) := by
  induction rows with
  | nil => rfl
  | cons r rs ih => simp only [substRows, substRow_eq, ih, List.map_cons]

end Rows

mutual
/-- Whether a call of the name `g` occurs, spelled just so. -/
def calls (g : String) : Expr → Bool
  | .unary _ e => calls g e
  | .binary _ l r => calls g l || calls g r
  | .call f e => f == g || calls g e
  | .matrix rows => callsRows g rows
  | _ => false

def callsRow (g : String) : List Expr → Bool
  | [] => false
  | e :: es => calls g e || callsRow g es

def callsRows (g : String) : List (List Expr) → Bool
  | [] => false
  | r :: rs => callsRow g r || callsRows g rs
end

theorem callsRow_eq {g : String} (r : List Expr) : callsRow g r = r.any (calls g) := by
  induction r with
  | nil => rfl
  | cons e es ih => simp only [callsRow, ih, List.any_cons]

theorem callsRows_eq {g : String} (rows : List (List Expr)) :
    callsRows g rows = rows.any (fun r => r.any (calls g)) := by
  induction rows with
  | nil => rfl
  | cons r rs ih => simp only [callsRows, callsRow_eq, ih, List.any_cons]

/-- Putting an expression in the place of one variable replaces each variable, the others by
themselves. -/
theorem subst_eq_bindVars (x : String) (a e : Expr) :
    subst x a e = e.bindVars (fun y => if y = x then a else .var y) := by
  induction e with
  | absent | number | imaginary | other | var => rfl
  | unary op e ih => simp only [subst, bindVars, ih]
  | binary op l r ihl ihr => simp only [subst, bindVars, ihl, ihr]
  | call f e ih => simp only [subst, bindVars, ih]
  | matrix rows ih =>
    simp only [subst, bindVars, substRows_eq, bindVarsRows_eq]
    congr 1
    exact List.map_congr_left fun r hr => List.map_congr_left fun e he => ih r hr e he

/-- Replacing each variable by itself changes nothing. -/
theorem bindVars_var (e : Expr) : e.bindVars .var = e := by
  induction e with
  | absent | number | imaginary | other | var => rfl
  | unary op e ih => simp only [bindVars, ih]
  | binary op l r ihl ihr => simp only [bindVars, ihl, ihr]
  | call f e ih => simp only [bindVars, ih]
  | matrix rows ih =>
    simp only [bindVars, bindVarsRows_eq]
    congr 1
    refine List.map_congr_left (fun r hr => ?_) |>.trans (List.map_id rows)
    exact List.map_congr_left (fun e he => ih r hr e he) |>.trans (List.map_id r)

/-- Whether a name occurs, of a variable or of a call, spelled just so. -/
def reads (y : String) (e : Expr) : Bool :=
  e.mentions y || e.calls y

theorem reads_of_mentions {y : String} {e : Expr} (h : e.mentions y = true) : e.reads y = true :=
  Bool.or_eq_true_iff.mpr (.inl h)

theorem reads_of_calls {y : String} {e : Expr} (h : e.calls y = true) : e.reads y = true :=
  Bool.or_eq_true_iff.mpr (.inr h)

theorem reads_var (y : String) : (Expr.var y).reads y = true :=
  reads_of_mentions (beq_self_eq_true y)

theorem reads_call (g : String) (e : Expr) : (Expr.call g e).reads g = true :=
  reads_of_calls (Bool.or_eq_true_iff.mpr (.inl (beq_self_eq_true g)))

/-- The expressions that another one is put together from. -/
inductive Part : Expr → Expr → Prop where
  | unary (op : UnOp) (e : Expr) : Part e (.unary op e)
  | left (op : BinOp) (l r : Expr) : Part l (.binary op l r)
  | right (op : BinOp) (l r : Expr) : Part r (.binary op l r)
  | arg (g : String) (e : Expr) : Part e (.call g e)
  | element {rows : List (List Expr)} {r : List Expr} {e : Expr} (hr : r ∈ rows) (he : e ∈ r) :
      Part e (.matrix rows)

namespace Part
variable {d e : Expr} {y : String}

theorem mentions (h : Part d e) (hd : d.mentions y = true) : e.mentions y = true := by
  cases h with
  | unary op e => exact hd
  | left op l r => exact Bool.or_eq_true_iff.mpr (.inl hd)
  | right op l r => exact Bool.or_eq_true_iff.mpr (.inr hd)
  | arg g e => exact hd
  | element hr he =>
    rw [Expr.mentions, mentionsRows_eq]
    exact List.any_eq_true.mpr ⟨_, hr, List.any_eq_true.mpr ⟨_, he, hd⟩⟩

theorem calls (h : Part d e) (hd : d.calls y = true) : e.calls y = true := by
  cases h with
  | unary op e => exact hd
  | left op l r => exact Bool.or_eq_true_iff.mpr (.inl hd)
  | right op l r => exact Bool.or_eq_true_iff.mpr (.inr hd)
  | arg g e => exact Bool.or_eq_true_iff.mpr (.inr hd)
  | element hr he =>
    rw [Expr.calls, callsRows_eq]
    exact List.any_eq_true.mpr ⟨_, hr, List.any_eq_true.mpr ⟨_, he, hd⟩⟩

theorem reads (h : Part d e) (hd : d.reads y = true) : e.reads y = true := by
  rcases Bool.or_eq_true_iff.mp hd with hd | hd
  · exact reads_of_mentions (h.mentions hd)
  · exact reads_of_calls (h.calls hd)

end Part

mutual
def mapNames (ρ : String → String) : Expr → Expr
  | .var y => .var (ρ y)
  | .unary op e => .unary op (mapNames ρ e)
  | .binary op a b => .binary op (mapNames ρ a) (mapNames ρ b)
  | .call g e => .call (ρ g) (mapNames ρ e)
  | .matrix rows => .matrix (mapNamesRows ρ rows)
  | .absent => .absent
  | .number t => .number t
  | .imaginary => .imaginary
  | .other d => .other d

def mapNamesRow (ρ : String → String) : List Expr → List Expr
  | [] => []
  | e :: es => mapNames ρ e :: mapNamesRow ρ es

def mapNamesRows (ρ : String → String) : List (List Expr) → List (List Expr)
  | [] => []
  | row :: rows => mapNamesRow ρ row :: mapNamesRows ρ rows
end

theorem mapNamesRow_eq {ρ : String → String} (r : List Expr) :
    mapNamesRow ρ r = r.map (mapNames ρ) := by
  induction r with
  | nil => rfl
  | cons e es ih => simp only [mapNamesRow, ih, List.map_cons]

theorem mapNamesRows_eq {ρ : String → String} (rows : List (List Expr)) :
    mapNamesRows ρ rows = rows.map (List.map (mapNames ρ)) := by
  induction rows with
  | nil => rfl
  | cons r rs ih => simp only [mapNamesRows, mapNamesRow_eq, ih, List.map_cons]

/-- An expression stays as it is if each name that occurs in it is kept. -/
theorem mapNames_eq_self {ρ : String → String} {e : Expr}
    (h : ∀ y, e.reads y = true → ρ y = y) : e.mapNames ρ = e := by
  induction e with
  | absent | number | imaginary | other => rfl
  | var y => rw [mapNames, h y (reads_var y)]
  | unary op e ih => rw [mapNames, ih fun y hy => h y (Part.reads (.unary op e) hy)]
  | binary op l r ihl ihr =>
    rw [mapNames, ihl fun y hy => h y (Part.reads (.left op l r) hy),
      ihr fun y hy => h y (Part.reads (.right op l r) hy)]
  | call g e ih =>
    rw [mapNames, h g (reads_call g e), ih fun y hy => h y (Part.reads (.arg g e) hy)]
  | matrix rows ih =>
    rw [mapNames, mapNamesRows_eq]
    congr 1
    refine List.map_congr_left (fun r hr => ?_) |>.trans (List.map_id rows)
    refine List.map_congr_left (fun e he => ?_) |>.trans (List.map_id r)
    exact ih r hr e he fun y hy => h y (Part.reads (.element hr he) hy)

theorem mapNames_id (e : Expr) : e.mapNames id = e :=
  mapNames_eq_self fun _ _ => rfl

end Reckoner.Expr
