import Reckoner.Proofs.Printing

namespace Reckoner

namespace Expr

/-- An operand, and signs with the operands after them. An operand is a chain of its own only if it
stands in parentheses; the others are grouped anew, products before sums and from left to right. -/
structure Chain where
  first : Expr
  more : List (BinOp × Expr)

namespace Chain

/-- A term within a sum, whose part on the left is left to `pre`, with what comes after it. -/
def regroup (pre : Expr → Expr) (t : Expr) : List (BinOp × Expr) → Expr
  | [] => pre t
  | (op, p) :: more =>
    if op.isSum then regroup (.binary op (pre t)) p more else regroup pre (.binary op t p) more

def whole (c : Chain) : Expr :=
  regroup id c.first c.more

def single (e : Expr) : Chain :=
  ⟨e, []⟩

def append (c : Chain) (ops : List (BinOp × Expr)) : Chain :=
  ⟨c.first, c.more ++ ops⟩

def join (op : BinOp) (a b : Chain) : Chain :=
  a.append ((op, b.first) :: b.more)

/-- In parentheses a chain is one operand. -/
def enclosed (inParens : Bool) (c : Chain) : Chain :=
  if inParens then single c.whole else c

end Chain

mutual
/-- The operands and signs of the text of an expression. -/
def chain : Expr → Chain
  | .unary op e => .single (.unary op (chain e).whole)
  | .binary op l r =>
    if op = .pow then .single (.binary op (chain l).whole (chain r).whole)
    else .join op ((chain l).enclosed (l.isEnclosed op)) ((chain r).enclosed (r.isEnclosed op))
  | .matrix rows => .single (.matrix (regroupedRows rows))
  | .absent => .single .absent
  | .number t => .single (.number t)
  | .var x => .single (.var x)
  | .imaginary => .single .imaginary
  | .call f e => .single (.call f e)
  | .other d => .single (.other d)

def regroupedRow : List Expr → List Expr
  | [] => []
  | e :: es => (chain e).whole :: regroupedRow es

def regroupedRows : List (List Expr) → List (List Expr)
  | [] => []
  | r :: rs => regroupedRow r :: regroupedRows rs
end

/-- What the text of an expression is read as. -/
def regrouped (e : Expr) : Expr :=
  e.chain.whole

theorem regroupedRow_eq (r : List Expr) : regroupedRow r = r.map regrouped := by
  induction r with
  | nil => rfl
  | cons e es ih =>
    rw [regroupedRow, ih]
    rfl

theorem regroupedRows_eq (rows : List (List Expr)) :
    regroupedRows rows = rows.map (List.map regrouped) := by
  induction rows with
  | nil => rfl
  | cons r rs ih => rw [regroupedRows, regroupedRow_eq, ih, List.map_cons]

theorem chain_matrix (rows : List (List Expr)) :
    chain (.matrix rows) = .single (.matrix (rows.map (List.map regrouped))) := by
  rw [chain, regroupedRows_eq]

theorem regrouped_matrix (rows : List (List Expr)) :
    regrouped (.matrix rows) = .matrix (rows.map (List.map regrouped)) := by
  rw [regrouped, chain_matrix]
  rfl

namespace Chain
open Grammar
variable {rest rest' ts : List Token} {ops : List (BinOp × Expr)} {c : Chain}

/-- Signs and operands that are read after an operand of a sum. -/
def Follows (ops : List (BinOp × Expr)) (ts rest : List Token) : Prop :=
  ∃ (mid : List Token) (terms : Derivation .termTail ts mid) (sums : Derivation .sumTail mid rest),
    ∀ pre t, sums.meaning (pre (terms.meaning t)) = regroup pre t ops

/-- A chain that is read as a sum. -/
def Derives (c : Chain) (ts rest : List Token) : Prop :=
  ∃ (mid : List Token) (first : Derivation .power ts mid),
    first.meaning = c.first ∧ Follows c.more mid rest

theorem Follows.nil : Follows [] rest rest :=
  ⟨rest, .termEnd, .sumEnd, fun _ _ => rfl⟩

/-- A sign and a chain follow an operand, if no minus comes after the sign of a sum. -/
theorem Follows.cons {op : BinOp} (hop : ∀ sign, op ≠ .other sign) (hpow : op ≠ .pow)
    (hsign : op.isSum = true → kind? ts ≠ some .minus) (h : Derives c ts rest) :
    Follows ((op, c.first) :: c.more) (op.token :: ts) rest := by
  obtain ⟨mid, first, hfirst, mid', terms, sums, hmore⟩ := h
  have hsum (op : BinOp) (hop : Parser.sumOp? op.token.kind = some op) (his : op.isSum = true)
      (hsign : kind? ts ≠ some .minus) :
      Follows ((op, c.first) :: c.more) (op.token :: ts) rest := by
    refine ⟨_, .termEnd, .sumNext op hop hsign (.term first terms) sums, ?_⟩
    intro pre t
    rw [regroup, if_pos his, ← hmore (.binary op (pre t)) c.first, ← hfirst]
    rfl
  have hproduct (op : BinOp) (hop : Parser.productOp? op.token.kind = some op)
      (his : op.isSum = false) : Follows ((op, c.first) :: c.more) (op.token :: ts) rest := by
    refine ⟨mid', .product op hop first terms, sums, ?_⟩
    intro pre t
    rw [regroup, his, if_neg (by simp), ← hmore pre (.binary op t c.first), ← hfirst]
    rfl
  cases op with
  | add | sub => exact hsum _ rfl rfl (hsign rfl)
  | mul | div | mod | matMul => exact hproduct _ rfl rfl
  | pow => exact absurd rfl hpow
  | other s => exact absurd rfl (hop s)

/-- The chain is read as its operands are grouped. -/
theorem Derives.sum (h : Derives c ts rest) :
    ∃ d : Derivation .sum ts rest, d.meaning = c.whole := by
  obtain ⟨mid, first, hfirst, mid', terms, sums, hmore⟩ := h
  refine ⟨.sum (.term first terms) sums, ?_⟩
  rw [whole, ← hmore, ← hfirst]
  rfl

/-- A factor that is followed by signs is the first operand of a chain. -/
theorem derives_of_factor {e : Expr} {mid : List Token} (d : Derivation .factor ts mid)
    (hd : d.meaning = e) (h : Follows ops mid rest) : Derives ((single e).append ops) ts rest :=
  ⟨mid, .base d, hd, h⟩

end Chain

section Reading
open Grammar

theorem IsWritten.kind?_tokens {e : Expr} (h : e.IsWritten) (op : BinOp) (rest : List Token) :
    kind? (enclosedTokens (e.isEnclosed op) e.tokens ++ rest) = some .minus ↔
      operandLeads op e = true := by
  induction h generalizing op rest with
  | number | var | imaginary | negative =>
    simp [enclosedTokens, isEnclosed, tokens, operandLeads, leadsMinus]
  | matrix =>
    simp [enclosedTokens, isEnclosed, tokens, operandLeads, leadsMinus, rowsTokens, bracketTokens]
  | @binary inner l r _ _ _ ihl _ =>
    rw [enclosedTokens, operandLeads]
    cases (Expr.binary inner l r).isEnclosed op with
    | true => simp
    | false =>
      rw [if_neg (by simp), tokens, List.append_assoc, ihl]
      rfl

/-- An expression that is read as its chain, with any operands after it. -/
def IsRead (e : Expr) : Prop :=
  ∀ ops rest rest', kind? rest ≠ some .lparen → Chain.Follows ops rest rest' →
    Chain.Derives (e.chain.append ops) (e.tokens ++ rest) rest'

def IsFactor (e : Expr) : Prop :=
  ∀ rest, kind? rest ≠ some .lparen →
    ∃ d : Derivation .factor (e.tokens ++ rest) rest, d.meaning = e.regrouped

theorem IsRead.sum {e : Expr} (h : e.IsRead) {rest : List Token}
    (hrest : kind? rest ≠ some .lparen) :
    ∃ d : Derivation .sum (e.tokens ++ rest) rest, d.meaning = e.regrouped := by
  have hsum := (h [] rest rest hrest .nil).sum
  rwa [Chain.append, List.append_nil] at hsum

theorem IsRead.parens {e : Expr} (h : e.IsRead) (rest : List Token) :
    ∃ d : Derivation .factor (enclosedTokens true e.tokens ++ rest) rest,
      d.meaning = e.regrouped := by
  have hclose : kind? (⟨.rparen, ")", 0⟩ :: rest) ≠ some .lparen := by simp
  obtain ⟨d, hd⟩ := h.sum hclose
  rw [enclosedTokens, if_pos rfl, List.cons_append, List.append_assoc, List.singleton_append]
  exact ⟨.parens rfl d rfl, hd⟩

/-- An operand goes on with what follows it, unless it stands in parentheses. -/
theorem IsRead.operand {e : Expr} (h : e.IsRead) (op : BinOp) {ops : List (BinOp × Expr)}
    {rest rest' : List Token} (hrest : kind? rest ≠ some .lparen)
    (hops : Chain.Follows ops rest rest') :
    Chain.Derives ((e.chain.enclosed (e.isEnclosed op)).append ops)
      (enclosedTokens (e.isEnclosed op) e.tokens ++ rest) rest' := by
  cases e.isEnclosed op with
  | false => exact h ops rest rest' hrest hops
  | true =>
    obtain ⟨d, hd⟩ := h.parens rest
    exact Chain.derives_of_factor d hd hops

/-- A factor by itself is a chain without signs. -/
theorem IsFactor.isRead {e e' : Expr} (h : e.IsFactor) (he : e.chain = .single e') : e.IsRead := by
  intro ops rest rest' hrest hops
  obtain ⟨d, hd⟩ := h rest hrest
  rw [regrouped, he] at hd
  rw [he]
  exact Chain.derives_of_factor d hd hops

/-- An expression as it is read in each place: what is not in parentheses beside a power is a
factor. -/
structure IsPhrase (e : Expr) : Prop where
  read : e.IsRead
  factor : e.isEnclosed .pow = false → e.IsFactor

theorem IsFactor.isPhrase {e e' : Expr} (h : e.IsFactor) (he : e.chain = .single e') :
    e.IsPhrase :=
  ⟨h.isRead he, fun _ => h⟩

theorem IsPhrase.beside_power {e : Expr} (h : e.IsPhrase) {rest : List Token}
    (hrest : kind? rest ≠ some .lparen) :
    ∃ d : Derivation .factor (enclosedTokens (e.isEnclosed .pow) e.tokens ++ rest) rest,
      d.meaning = e.regrouped := by
  cases hpow : e.isEnclosed .pow with
  | false => exact h.factor hpow rest hrest
  | true => exact h.read.parens rest

theorem isFactor_negative {e : Expr} (h : e.IsPhrase) : (unary .neg e).IsFactor := by
  intro rest hrest
  obtain ⟨d, hd⟩ := h.beside_power hrest
  exact ⟨.negative rfl d, congrArg (Expr.unary .neg) hd⟩

/-- Both operands of a power are factors, so the power is one operand. -/
theorem isRead_power {l r : Expr} (hl : l.IsPhrase) (hr : r.IsPhrase) :
    (binary .pow l r).IsRead := by
  intro ops rest rest' hrest hops
  have hnext : kind? (BinOp.pow.token :: (enclosedTokens (r.isEnclosed .pow) r.tokens ++ rest)) ≠
      some .lparen := by
    simp [BinOp.token, BinOp.tokenKind]
  obtain ⟨right, hright⟩ := hr.beside_power hrest
  obtain ⟨left, hleft⟩ := hl.beside_power hnext
  rw [tokens, List.append_assoc, List.cons_append]
  refine ⟨rest, .raised left rfl (.base right), ?_, hops⟩
  exact congrArg₂ (Expr.binary .pow) hleft hright

/-- An operation is the chain of both its operands. -/
theorem isRead_binary {op : BinOp} {l r : Expr} (hop : ∀ sign, op ≠ .other sign)
    (hpow : op ≠ .pow) (hwritten : r.IsWritten) (hl : l.IsRead) (hr : r.IsRead)
    (hsign : op.isSum = true → operandLeads op r = false) : (binary op l r).IsRead := by
  intro ops rest rest' hrest hops
  have hminus : op.isSum = true →
      kind? (enclosedTokens (r.isEnclosed op) r.tokens ++ rest) ≠ some .minus := by
    intro hsum hminus
    have hleads := (hwritten.kind?_tokens op rest).mp hminus
    rw [hsign hsum] at hleads
    cases hleads
  -- The right operand is read first: the sign and all after it follow the left one.
  have hright := Chain.Follows.cons hop hpow hminus (hr.operand op hrest hops)
  have hnext : kind? (op.token :: (enclosedTokens (r.isEnclosed op) r.tokens ++ rest)) ≠
      some .lparen := by
    cases op <;> simp [BinOp.token, BinOp.tokenKind]
  have hleft := hl.operand op hnext hright
  rw [tokens, List.append_assoc, List.cons_append, chain, if_neg hpow]
  simpa only [Chain.join, Chain.append, List.append_assoc, List.cons_append] using hleft

/-- The elements of a row. -/
theorem derives_row {r : List Expr} (h : ∀ e ∈ r, e.IsRead) (rest : List Token) :
    ∃ d : Derivation .row
        (List.intercalate [⟨.comma, ",", 0⟩] (r.map tokens) ++ ⟨.rbracket, "]", 0⟩ :: rest)
        (⟨.rbracket, "]", 0⟩ :: rest),
      d.meaning = r.map regrouped := by
  induction r with
  | nil => exact ⟨.rowEnd, rfl⟩
  | cons e es ih =>
    obtain ⟨he, hes⟩ := List.forall_mem_cons.mp h
    cases es with
    | nil =>
      have hclose : kind? (⟨.rbracket, "]", 0⟩ :: rest) ≠ some .lparen := by simp
      obtain ⟨d, hd⟩ := he.sum hclose
      rw [List.map_singleton, List.map_singleton, List.intercalate_singleton]
      exact ⟨.rowLast d, congrArg (fun e => [e]) hd⟩
    | cons e' es =>
      have hcomma : kind? (⟨.comma, ",", 0⟩ ::
          (List.intercalate [⟨.comma, ",", 0⟩] ((e' :: es).map tokens) ++
            ⟨.rbracket, "]", 0⟩ :: rest)) ≠ some .lparen := by simp
      obtain ⟨more, hmore⟩ := ih hes
      obtain ⟨first, hfirst⟩ := he.sum hcomma
      rw [List.map_cons, List.map_cons, List.intercalate_cons_cons, List.append_assoc,
        List.append_assoc, List.singleton_append]
      exact ⟨.rowNext first rfl more, congrArg₂ List.cons hfirst hmore⟩

/-- The rows of a matrix. -/
theorem derives_rows {rows : List (List Expr)} (h : ∀ r ∈ rows, ∀ e ∈ r, e.IsRead)
    (rest : List Token) :
    ∃ d : Derivation .items
        (List.intercalate [⟨.semicolon, ";", 0⟩]
          (rows.map (fun r => elementsTokens (r.map tokens))) ++ ⟨.rbracket, "]", 0⟩ :: rest)
        (⟨.rbracket, "]", 0⟩ :: rest),
      d.meaning [] = rows.map (List.map regrouped) := by
  have hbrackets (r : List Expr) (us : List Token) : elementsTokens (r.map tokens) ++ us =
      ⟨.lbracket, "[", 0⟩ :: (List.intercalate [⟨.comma, ",", 0⟩] (r.map tokens) ++
        ⟨.rbracket, "]", 0⟩ :: us) := by
    simp [elementsTokens, bracketTokens]
  induction rows with
  | nil => exact ⟨.itemsEnd, rfl⟩
  | cons r rs ih =>
    obtain ⟨hr, hrs⟩ := List.forall_mem_cons.mp h
    cases rs with
    | nil =>
      obtain ⟨d, hd⟩ := derives_row hr (⟨.rbracket, "]", 0⟩ :: rest)
      rw [List.map_singleton, List.map_singleton, List.intercalate_singleton, hbrackets]
      exact ⟨.nested rfl d rfl .itemsEnd, congrArg (fun r => [r]) hd⟩
    | cons r' rs =>
      obtain ⟨more, hmore⟩ := ih hrs
      obtain ⟨first, hfirst⟩ := derives_row hr (⟨.semicolon, ";", 0⟩ ::
        (List.intercalate [⟨.semicolon, ";", 0⟩]
          ((r' :: rs).map (fun r => elementsTokens (r.map tokens))) ++ ⟨.rbracket, "]", 0⟩ :: rest))
      rw [List.map_cons, List.map_cons, List.intercalate_cons_cons, List.append_assoc,
        List.append_assoc, List.singleton_append, hbrackets]
      exact ⟨.nestedSep rfl first rfl (.inr rfl) more, congrArg₂ List.cons hfirst hmore⟩

theorem isFactor_matrix {rows : List (List Expr)} (hne : rows ≠ [])
    (h : ∀ r ∈ rows, ∀ e ∈ r, e.IsRead) : (Expr.matrix rows).IsFactor := by
  intro rest _
  obtain ⟨d, hd⟩ := derives_rows h rest
  rw [tokens, tokensRows_eq, rowsTokens, bracketTokens, List.cons_append, List.append_assoc,
    List.singleton_append]
  have hitem : kind? (List.intercalate [⟨.semicolon, ";", 0⟩]
      (rows.map (fun r => elementsTokens (r.map tokens))) ++ ⟨.rbracket, "]", 0⟩ :: rest) ≠
        some .rbracket := by
    intro hclose
    have hnil := (d.meaning_nil_iff rfl).mpr hclose
    rw [hd] at hnil
    exact hne (List.map_eq_nil_iff.mp hnil)
  refine ⟨.matrix rfl hitem d rfl, ?_⟩
  rw [regrouped_matrix]
  exact congrArg Expr.matrix hd

/-- The text of a written expression without signs side by side is read as its chain. -/
theorem IsWritten.isPhrase {e : Expr} (h : e.IsWritten) (hsigns : e.signsApart = true) :
    e.IsPhrase := by
  induction h with
  | number =>
    apply IsFactor.isPhrase (fun rest _ => ?_) rfl
    exact ⟨.numeral _ rfl, rfl⟩
  | imaginary =>
    apply IsFactor.isPhrase (fun rest _ => ?_) rfl
    exact ⟨.imaginary rfl rfl, rfl⟩
  | var _ _ hi =>
    apply IsFactor.isPhrase (fun rest hrest => ?_) rfl
    exact ⟨.name _ rfl hi hrest, rfl⟩
  | negative _ ih => exact (isFactor_negative (ih hsigns)).isPhrase rfl
  | @binary op l r hop hl hr ihl ihr =>
    simp only [signsApart, Bool.and_eq_true, Bool.not_eq_true', Bool.and_eq_false_imp] at hsigns
    obtain ⟨⟨hleft, hright⟩, hsign⟩ := hsigns
    refine ⟨?_, fun hpow => by simp [isEnclosed] at hpow⟩
    by_cases hpow : op = .pow
    · subst hpow
      exact isRead_power (ihl hleft) (ihr hright)
    · exact isRead_binary hop hpow hr (ihl hleft).read (ihr hright).read hsign
  | @matrix rows hne _ ih =>
    rw [signsApart, signsApartRows_eq] at hsigns
    apply IsFactor.isPhrase (isFactor_matrix hne ?_) (chain_matrix rows)
    intro r hr e he
    have helement := List.all_eq_true.mp (List.all_eq_true.mp hsigns r hr) e he
    exact (ih r hr e he helement).read

end Reading
end Expr

/-- The text of an expression without signs side by side is read, as the expression regrouped. -/
theorem Session.read_of_signs {e : Expr} (he : e.IsWritten) (h : e.signsApart = true) :
    read e.text = .ok (some (.expression e.regrouped)) := by
  have hsum := (he.isPhrase h).read.sum (by simp : Grammar.kind? [] ≠ some .lparen)
  rw [List.append_nil] at hsum
  obtain ⟨d, hd⟩ := hsum
  apply read_of_lexes he.spells.lexes
  apply (Grammar.parse_eq_some_iff (d.ne_nil (by decide))).mpr
  exact ⟨.expression d, congrArg Statement.expression hd⟩

end Reckoner
