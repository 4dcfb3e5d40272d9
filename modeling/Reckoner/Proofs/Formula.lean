import Mathlib
import Reckoner.Proofs.Polynomial.Values
import Reckoner.Proofs.ReadBack
import Reckoner.Proofs.Rereading

namespace Reckoner

theorem IsBindable.isWritten {x : String} (h : IsBindable x) : (Expr.var x).IsWritten := by
  refine .var h.ne_empty h.letters ?_
  rintro rfl
  exact h.ne_unit (by decide)

/-- Formulas in one name, as they are written: no parentheses but those that are there. -/
inductive Formula where
  | number (n : Nat)
  | fraction (a b : Nat)
  | name
  | power (k : Nat)
  | negative (spaced : Bool) (a : Formula)
  | parens (a : Formula)
  | sum (minus : Bool) (l r : Formula)
  | product (l r : Formula)

namespace Formula

def sumSign (minus : Bool) : BinOp :=
  if minus then .sub else .add

def text (x : String) : Formula → String
  | number n => toString n
  | fraction a b => toString a ++ "/" ++ toString b
  | name => x
  | power k => x ++ "^" ++ toString k
  | negative spaced a => (if spaced then "- " else "-") ++ a.text x
  | parens a => Expr.inParens (a.text x)
  | sum minus l r => l.text x ++ (sumSign minus).between ++ r.text x
  | product l r => l.text x ++ BinOp.mul.between ++ r.text x

/-- What a formula is meant to be where the name stands for `q`. -/
def value (q : Rat) : Formula → Rat
  | number n => n
  | fraction a b => a / b
  | name => q
  | power k => q ^ k
  | negative _ a => -a.value q
  | parens a => a.value q
  | sum minus l r => if minus then l.value q - r.value q else l.value q + r.value q
  | product l r => l.value q * r.value q

def isReadable : Formula → Bool
  | number n | power n => !Rational.isLong n
  | fraction a b => !Rational.isLong a && !Rational.isLong b && b != 0
  | name => true
  | negative _ a | parens a => a.isReadable
  | sum _ l r | product l r => l.isReadable && r.isReadable

section Spelling
open Token

def numeral (n : Nat) : Token :=
  ⟨.number, toString n, 0⟩

def tokens (x : String) : Formula → List Token
  | number n => [numeral n]
  | fraction a b => [numeral a, BinOp.div.token, numeral b]
  | name => [⟨.identifier, x, 0⟩]
  | power k => [⟨.identifier, x, 0⟩, BinOp.pow.token, numeral k]
  | negative _ a => ⟨.minus, "-", 0⟩ :: a.tokens x
  | parens a => Expr.enclosedTokens true (a.tokens x)
  | sum minus l r => l.tokens x ++ (sumSign minus).token :: r.tokens x
  | product l r => l.tokens x ++ BinOp.mul.token :: r.tokens x

variable {x : String}

theorem sumSign_ne (minus : Bool) : (∀ s, sumSign minus ≠ .other s) ∧ sumSign minus ≠ .pow := by
  cases minus <;> exact ⟨nofun, nofun⟩

theorem product_ne {op : BinOp} (h : op = .mul ∨ op = .div) :
    (∀ s, op ≠ .other s) ∧ op ≠ .pow ∧ ¬ op.isSum = true := by
  rcases h with rfl | rfl <;> exact ⟨nofun, nofun, nofun⟩

theorem isSum_sumSign (minus : Bool) : (sumSign minus).isSum = true := by
  cases minus <;> rfl

theorem spells_numeral (n : Nat) : Spells (toString n).toList [numeral n] :=
  .numeral (Rational.isNumeral_toString n)

theorem spells_between {op : BinOp} (hop : ∀ s, op ≠ .other s) {l r : String} {ts us : List Token}
    (hl : Spells l.toList ts) (hr : Spells r.toList us) :
    Spells (l ++ op.between ++ r).toList (ts ++ op.token :: us) := by
  rw [String.toList_append, String.toList_append, List.append_assoc]
  obtain ⟨hstops, hne⟩ := Spells.stops_between op hop r.toList
  exact hl.append hstops hne (hr.sign hop)

/-- The text of a formula spells its tokens. -/
theorem spells_text (hx : (Expr.var x).IsWritten) (f : Formula) :
    Spells (f.text x).toList (f.tokens x) := by
  have hname : Spells x.toList [⟨.identifier, x, 0⟩] := hx.spells
  induction f with
  | number n => exact spells_numeral n
  | fraction a b =>
    rw [text, String.toList_append, String.toList_append, List.append_assoc]
    have hden := (spells_numeral b).symbol (c := '/') rfl (by decide)
    exact (spells_numeral a).append rfl (by simp) hden
  | name => exact hname
  | power k =>
    rw [text, String.toList_append, String.toList_append, List.append_assoc]
    have hexponent := (spells_numeral k).symbol (c := '^') rfl (by decide)
    exact hname.append rfl (by simp) hexponent
  | negative spaced a ih =>
    rw [text, String.toList_append]
    cases spaced with
    | true => exact ih.space.symbol rfl (by decide)
    | false => exact ih.symbol rfl (by decide)
  | parens a ih =>
    rw [text, Expr.inParens, String.toList_append, String.toList_append]
    exact ih.parens
  | sum minus l r ihl ihr => exact spells_between (sumSign_ne minus).1 ihl ihr
  | product l r ihl ihr => exact spells_between (product_ne (.inl rfl)).1 ihl ihr

end Spelling

section Ends
open Text

structure IsTrimmed (cs : List Char) : Prop where
  ne_nil : cs ≠ []
  head : ∀ c ∈ cs.head?, isBlank c = false
  last : ∀ c ∈ cs.getLast?, isBlank c = false

variable {cs ds : List Char} {x : String}

theorem IsTrimmed.of_no_blank (hne : cs ≠ []) (h : ∀ c ∈ cs, isBlank c = false) : IsTrimmed cs :=
  ⟨hne, fun c hc => h c (List.mem_of_head? hc), fun c hc => h c (List.mem_of_getLast? hc)⟩

theorem IsTrimmed.append (hc : IsTrimmed cs) (w : List Char) (hd : IsTrimmed ds) :
    IsTrimmed (cs ++ (w ++ ds)) := by
  refine ⟨by simp [hc.ne_nil], ?_, ?_⟩
  · rw [List.head?_append_of_ne_nil _ hc.ne_nil]
    exact hc.head
  · rw [List.getLast?_append_of_ne_nil _ (by simp [hd.ne_nil]),
      List.getLast?_append_of_ne_nil _ hd.ne_nil]
    exact hd.last

theorem IsTrimmed.trim_eq {t : String} (h : IsTrimmed t.toList) : trim t = t := by
  have hlast : ∀ c ∈ t.toList.reverse.head?, isBlank c = false := by
    rw [List.head?_reverse]
    exact h.last
  rw [trim, trimChars, dropBlanks, dropBlanks, Token.dropWhile_head h.head,
    Token.dropWhile_head hlast, List.reverse_reverse, String.ofList_toList]

theorem isTrimmed_toString (n : Nat) : IsTrimmed (toString n).toList :=
  .of_no_blank (isLiteral_toString n).ne_nil
    fun c hc => isBlank_of_isDigit ((isLiteral_toString n).digits c hc)

/-- A formula has no blanks at its ends. -/
theorem isTrimmed_text (hx : (Expr.var x).IsWritten) (f : Formula) :
    IsTrimmed (f.text x).toList := by
  have hsign (c : Char) (hc : isBlank c = false) : IsTrimmed [c] :=
    .of_no_blank (by simp) (by simpa using hc)
  have hname : IsTrimmed x.toList := by
    cases hx with
    | var hne hletters =>
      exact .of_no_blank (fun h => hne (String.toList_eq_nil_iff.mp h))
        fun c hc => Token.isBlank_of_isLetter (hletters c hc)
  induction f with
  | number n => exact isTrimmed_toString n
  | fraction a b =>
    rw [text, String.toList_append, String.toList_append, List.append_assoc]
    exact (isTrimmed_toString a).append _ (isTrimmed_toString b)
  | name => exact hname
  | power k =>
    rw [text, String.toList_append, String.toList_append, List.append_assoc]
    exact hname.append _ (isTrimmed_toString k)
  | negative spaced a ih =>
    rw [text, String.toList_append]
    cases spaced with
    | true => exact (hsign '-' (by decide)).append [' '] ih
    | false => exact (hsign '-' (by decide)).append [] ih
  | parens a ih =>
    rw [text, Expr.inParens, String.toList_append, String.toList_append, List.append_assoc]
    exact (hsign '(' (by decide)).append _ (hsign ')' (by decide))
  | sum _ l r ihl ihr | product l r ihl ihr =>
    rw [text, String.toList_append, String.toList_append, List.append_assoc]
    exact ihl.append _ ihr

end Ends

def leadsMinus : Formula → Bool
  | negative _ _ => true
  | sum _ l _ | product l _ => l.leadsMinus
  | _ => false

/-- Whether no summand after a sign begins with a minus. -/
def signsApart : Formula → Bool
  | negative _ a | parens a => a.signsApart
  | sum _ l r => l.signsApart && r.signsApart && !r.leadsMinus
  | product l r => l.signsApart && r.signsApart
  | _ => true

section Scan
open Grammar
variable {x : String}

theorem kind?_tokens (f : Formula) (rest : List Token) :
    kind? (f.tokens x ++ rest) = some .minus ↔ f.leadsMinus = true := by
  induction f generalizing rest with
  | number | fraction | name | power | negative | parens =>
    simp [tokens, leadsMinus, numeral, Expr.enclosedTokens]
  | sum _ l r ihl _ | product l r ihl _ =>
    rw [tokens, List.append_assoc, ihl]
    rfl

/-- What the scan of a formula in front of other tokens finds. -/
theorem apart_tokens (f : Formula) (p : Place) (bs : List Bracket) (ks : List TokenKind)
    (hp : p = .start ∨ p = .sign) :
    apart p bs ((f.tokens x).map Token.kind ++ ks) =
      (f.signsApart && (p == .start || !f.leadsMinus) && apart .operand bs ks) := by
  induction f generalizing p bs ks with
  | number | fraction | name | power => rcases hp with rfl | rfl <;> rfl
  | negative _ a ih =>
    rcases hp with rfl | rfl
    · refine (ih .start bs ks (.inl rfl)).trans ?_
      simp [signsApart]
    · simp [tokens, leadsMinus, Grammar.apart]
  | parens a ih =>
    have hinner := ih .start (.group :: bs) (.rparen :: ks) (.inl rfl)
    simp only [tokens, Expr.enclosedTokens, if_true, List.map_cons, List.map_append, List.map_nil,
      List.cons_append, List.append_assoc, List.nil_append, signsApart, leadsMinus, Bool.not_false,
      Bool.or_true, Bool.and_true]
    simp only [beq_self_eq_true, Bool.true_or, Bool.and_true] at hinner
    exact hinner
  | sum minus l r ihl ihr =>
    rw [tokens, List.map_append, List.append_assoc, ihl p bs _ hp, List.map_cons, List.cons_append,
      Expr.apart_token (sumSign_ne minus).1, isSum_sumSign, if_pos rfl, ihr .sign bs ks (.inr rfl)]
    have hsign : (Place.sign == Place.start) = false := rfl
    simp [signsApart, leadsMinus, hsign, Bool.and_assoc, Bool.and_comm, Bool.and_left_comm]
  | product l r ihl ihr =>
    obtain ⟨hother, -, hsum⟩ := @product_ne .mul (.inl rfl)
    rw [tokens, List.map_append, List.append_assoc, ihl p bs _ hp, List.map_cons, List.cons_append,
      Expr.apart_token hother, if_neg hsum, ihr .start bs ks (.inl rfl)]
    simp [signsApart, leadsMinus, Bool.and_assoc, Bool.and_left_comm]

end Scan

def minuses : Nat → Expr → Expr
  | 0, e => e
  | m + 1, e => .unary .neg (minuses m e)

/-- The operands and signs of the text, with so many minuses before it. A minus belongs to the first
operand, whatever it was meant for. -/
def chain (x : String) (m : Nat) : Formula → Expr.Chain
  | number n => .single (minuses m (.number (toString n)))
  | fraction a b => ⟨minuses m (.number (toString a)), [(.div, .number (toString b))]⟩
  | name => .single (minuses m (.var x))
  | power k => .single (.binary .pow (minuses m (.var x)) (.number (toString k)))
  | negative _ a => a.chain x (m + 1)
  | parens a => .single (minuses m (a.chain x 0).whole)
  | sum minus l r => .join (sumSign minus) (l.chain x m) (r.chain x 0)
  | product l r => .join .mul (l.chain x m) (r.chain x 0)

/-- What the text of a formula is read as. -/
def reading (x : String) (f : Formula) : Expr :=
  (f.chain x 0).whole

section Reading
open Grammar
variable {x : String} {m : Nat} {e : Expr} {ops : List (BinOp × Expr)} {ts rest rest' : List Token}

def minusTokens (m : Nat) : List Token :=
  List.replicate m ⟨.minus, "-", 0⟩

/-- A minus is read with the factor after it. -/
theorem derives_minuses (m : Nat) (h : ∃ d : Derivation .factor ts rest, d.meaning = e) :
    ∃ d : Derivation .factor (minusTokens m ++ ts) rest, d.meaning = minuses m e := by
  induction m with
  | zero => exact h
  | succ m ih =>
    obtain ⟨d, hd⟩ := ih
    exact ⟨.negative rfl d, congrArg (Expr.unary .neg) hd⟩

/-- A factor after minuses, with what follows. -/
theorem derives_single (m : Nat) (h : ∃ d : Derivation .factor ts rest, d.meaning = e)
    (hops : Expr.Chain.Follows ops rest rest') :
    Expr.Chain.Derives ⟨minuses m e, ops⟩ (minusTokens m ++ ts) rest' := by
  obtain ⟨d, hd⟩ := derives_minuses m h
  exact Expr.Chain.derives_of_factor d hd hops

theorem derives_numeral (n : Nat) (rest : List Token) :
    ∃ d : Derivation .factor (numeral n :: rest) rest, d.meaning = .number (toString n) :=
  ⟨.numeral _ rfl, rfl⟩

theorem derives_name (hx : (Expr.var x).IsWritten) (hrest : kind? rest ≠ some .lparen) :
    ∃ d : Derivation .factor (⟨.identifier, x, 0⟩ :: rest) rest, d.meaning = .var x := by
  cases hx with
  | var _ _ hi => exact ⟨.name _ rfl hi hrest, rfl⟩

/-- The right operand of a sign is read first: the sign and all after it follow the left one. -/
theorem derives_join {op : BinOp} {l r : Expr.Chain} {us : List Token}
    (hop : ∀ s, op ≠ .other s) (hpow : op ≠ .pow)
    (hsign : op.isSum = true → kind? (us ++ rest) ≠ some .minus)
    (hr : Expr.Chain.Derives (r.append ops) (us ++ rest) rest')
    (hl : ∀ ops rest, kind? rest ≠ some .lparen → Expr.Chain.Follows ops rest rest' →
      Expr.Chain.Derives (l.append ops) (ts ++ rest) rest') :
    Expr.Chain.Derives ((l.join op r).append ops) (ts ++ op.token :: (us ++ rest)) rest' := by
  have hnext : kind? (op.token :: (us ++ rest)) ≠ some .lparen := by
    cases op <;> simp [BinOp.token, BinOp.tokenKind]
  have hleft := hl _ _ hnext (Expr.Chain.Follows.cons hop hpow hsign hr)
  simpa only [Expr.Chain.join, Expr.Chain.append, List.append_assoc, List.cons_append] using hleft

/-- A formula without signs side by side is read as its chain, with any minuses before it and any
operands after it. -/
theorem derives_chain (hx : (Expr.var x).IsWritten) {f : Formula} (hf : f.signsApart = true)
    (m : Nat) (ops : List (BinOp × Expr)) (rest rest' : List Token)
    (hrest : kind? rest ≠ some .lparen) (hops : Expr.Chain.Follows ops rest rest') :
    Expr.Chain.Derives ((f.chain x m).append ops) (minusTokens m ++ (f.tokens x ++ rest))
      rest' := by
  -- A minus is passed on to the first operand, and the right side of a sign is what follows the
  -- left one: hence any minuses before the formula and any operands after it.
  induction f generalizing m ops rest rest' with
  | number n => exact derives_single m (derives_numeral n rest) hops
  | fraction a b =>
    have hden : Expr.Chain.Derives ⟨.number (toString b), ops⟩ (numeral b :: rest) rest' :=
      derives_single 0 (derives_numeral b rest) hops
    obtain ⟨hother, hpow, hsum⟩ := @product_ne .div (.inr rfl)
    have hmore := Expr.Chain.Follows.cons hother hpow (fun h => absurd h hsum) hden
    exact derives_single m (derives_numeral a _) hmore
  | name => exact derives_single m (derives_name hx hrest) hops
  | power k =>
    obtain ⟨base, hbase⟩ := derives_minuses m
      (derives_name hx (by simp [BinOp.token, BinOp.tokenKind] :
        kind? (BinOp.pow.token :: numeral k :: rest) ≠ some .lparen))
    obtain ⟨exponent, hexponent⟩ := derives_numeral k rest
    exact ⟨rest, .raised base rfl (.base exponent),
      congrArg₂ (Expr.binary .pow) hbase hexponent, hops⟩
  | negative _ a ih =>
    have hminus : minusTokens m ++ (⟨.minus, "-", 0⟩ :: (a.tokens x ++ rest)) =
        minusTokens (m + 1) ++ (a.tokens x ++ rest) := by
      simp [minusTokens, List.replicate_succ']
    rw [chain, tokens, List.cons_append, hminus]
    exact ih hf (m + 1) ops rest rest' hrest hops
  | parens a ih =>
    have hclose : kind? (⟨.rparen, ")", 0⟩ :: rest) ≠ some .lparen := by simp
    have hsum := (ih hf 0 [] _ _ hclose .nil).sum
    rw [Expr.Chain.append, List.append_nil] at hsum
    obtain ⟨d, hd⟩ := hsum
    rw [tokens, Expr.enclosedTokens, if_pos rfl, List.cons_append, List.append_assoc,
      List.singleton_append]
    exact derives_single m ⟨.parens rfl d rfl, hd⟩ hops
  | sum minus l r ihl ihr =>
    simp only [signsApart, Bool.and_eq_true, Bool.not_eq_true'] at hf
    obtain ⟨⟨hl, hr⟩, hleads⟩ := hf
    have hsign : kind? (r.tokens x ++ rest) ≠ some .minus := by
      rw [Ne, kind?_tokens, hleads]
      exact Bool.false_ne_true
    obtain ⟨hother, hpow⟩ := sumSign_ne minus
    rw [chain, tokens, List.append_assoc, List.cons_append, ← List.append_assoc]
    apply derives_join hother hpow (fun _ => hsign) (ihr hr 0 ops rest rest' hrest hops)
    intro ops rest hrest hops
    rw [List.append_assoc]
    exact ihl hl m ops rest rest' hrest hops
  | product l r ihl ihr =>
    obtain ⟨hl, hr⟩ := Bool.and_eq_true_iff.mp hf
    rw [chain, tokens, List.append_assoc, List.cons_append, ← List.append_assoc]
    obtain ⟨hother, hpow, hsum⟩ := @product_ne .mul (.inl rfl)
    apply derives_join hother hpow (fun h => absurd h hsum) (ihr hr 0 ops rest rest' hrest hops)
    intro ops rest hrest hops
    rw [List.append_assoc]
    exact ihl hl m ops rest rest' hrest hops

/-- Without signs side by side the text of a formula is read as its reading. -/
theorem read_formula (hx : (Expr.var x).IsWritten) {f : Formula} (hf : f.signsApart = true) :
    Session.read (f.text x) = .ok (some (.expression (f.reading x))) := by
  have hsum := (derives_chain hx hf 0 [] [] [] (by simp) .nil).sum
  rw [Expr.Chain.append, List.append_nil, List.append_nil] at hsum
  obtain ⟨d, hd⟩ := hsum
  apply Session.read_of_lexes (spells_text hx f).lexes
  apply (parse_eq_some_iff (d.ne_nil (by decide))).mpr
  exact ⟨.expression d, congrArg Statement.expression hd⟩

/-- A summand that begins with a minus makes the text unreadable. -/
theorem refused_formula (hx : (Expr.var x).IsWritten) {f : Formula} (hf : f.signsApart = false) :
    ∃ err, Session.read (f.text x) = .error err := by
  cases hread : Session.read (f.text x) with
  | error err => exact ⟨err, rfl⟩
  | ok o =>
    obtain ⟨ts, hlex, hparse⟩ := Session.read_eq_ok.mp hread
    obtain ⟨us, hus, hfaces⟩ := (spells_text hx f).lexes 0
    cases hlex.symm.trans hus
    have hscan := apart_tokens (x := x) f .start [] [] (.inl rfl)
    rw [List.append_nil, ← kinds_of_faces hfaces, apart_of_parse hparse, hf] at hscan
    cases hscan

end Reading

def hasSum : Formula → Bool
  | negative _ a => a.hasSum
  | sum _ _ _ => true
  | product l r => l.hasSum || r.hasSum
  | _ => false

/-- Whether the text means the formula, with so many minuses before it: these must cancel before a
sum and before an even power, and there must be parentheses around the sums that are subtracted or
multiplied. -/
def groups (m : Nat) : Formula → Bool
  | power k => m % 2 == 0 || k % 2 == 1
  | negative _ a => a.groups (m + 1)
  | parens a => a.groups 0
  | sum minus l r => m % 2 == 0 && l.groups m && r.groups 0 && !(minus && r.hasSum)
  | product l r => l.groups m && r.groups 0 && !l.hasSum && !r.hasSum
  | _ => true

section Values
open Eval Outcome
open Reckoner.Expr (keepsLeft keepsRight)
variable {x : String} {m : Nat} {q : Rat} {s : Scope} {run : Scope → Expr → Except Error Value}

/-- The signs outside of parentheses are those of products if there are no sums. -/
theorem signs_of_not_hasSum {f : Formula} (h : f.hasSum = false) (m : Nat) :
    ∀ o ∈ (f.chain x m).more, o.1 = .mul ∨ o.1 = .div := by
  induction f generalizing m with
  | number | name | power | parens => exact nofun
  | fraction => exact List.forall_mem_singleton.mpr (.inr rfl)
  | negative _ a ih => exact ih h (m + 1)
  | sum => cases h
  | product l r ihl ihr =>
    obtain ⟨hl, hr⟩ := Bool.or_eq_false_iff.mp h
    exact List.forall_mem_append.mpr
      ⟨ihl hl m, List.forall_mem_cons.mpr ⟨.inl rfl, ihr hr 0⟩⟩

/-- An expression over numbers, without calls, and its value. -/
def Comes (run : Scope → Expr → Except Error Value) (s : Scope) (e : Expr) (v : Rat) : Prop :=
  e.IsOver true s ∧ evalWith run s e = .ok (.rational v)

theorem Comes.minuses {e : Expr} {v : Rat} (h : Comes run s e v) (m : Nat) :
    Comes run s (minuses m e) ((-1) ^ m * v) := by
  induction m with
  | zero => rwa [pow_zero, one_mul]
  | succ m ih =>
    refine ⟨.unary .neg ih.1, bind_eq_ok.mpr ⟨_, ih.2, ?_⟩⟩
    rw [negate, Value.neg, pow_succ]
    congr 2
    ring

theorem comes_numeral {n : Nat} (h : Rational.isLong n = false) :
    Comes run s (.number (toString n)) n :=
  ⟨.number _, by rw [evalWith, Rational.readNumeral_toString h]; rfl⟩

theorem comes_var (h : s.lookup? x = some (.rational q)) : Comes run s (.var x) q := by
  refine ⟨.var fun v hv => ?_, by rw [evalWith, h]⟩
  cases h.symm.trans hv
  rfl

theorem Comes.binary {op : BinOp} {l r : Expr} {a b c : Rat} (hl : Comes run s l a)
    (hr : Comes run s r b) (h : Value.combine op (.rational a) (.rational b) = .ok (.rational c)) :
    Comes run s (.binary op l r) c :=
  ⟨.binary op hl.1 hr.1, bind_eq_ok.mpr ⟨_, hl.2, bind_eq_ok.mpr ⟨_, hr.2, h⟩⟩⟩

/-- Chains that are joined where nothing is grouped otherwise. -/
theorem Comes.join {op : BinOp} {l r : Expr.Chain} {a b c : Rat} (hl : Comes run s l.whole a)
    (hr : Comes run s r.whole b) (hkl : keepsLeft op l.more = true)
    (hkr : keepsRight (BinOp.associates true) op r.more = true)
    (h : Value.combine op (.rational a) (.rational b) = .ok (.rational c)) :
    Comes run s (l.join op r).whole c := by
  obtain ⟨hover, heval⟩ := hl.binary hr h
  obtain ⟨hover', hgives⟩ := Expr.Chain.rel_join Expr.regroups_refines hkl hkr hover
  exact ⟨hover', hgives _ heval⟩

theorem combine_sumSign (minus : Bool) (a b : Rat) :
    Value.combine (sumSign minus) (.rational a) (.rational b) =
      .ok (.rational (if minus then a - b else a + b)) := by
  cases minus <;> rfl

/-- A sum is added as it is, and subtracted in parentheses only. -/
theorem keepsRight_sum {minus : Bool} {f : Formula} (h : (minus && f.hasSum) = false) :
    keepsRight (BinOp.associates true) (sumSign minus) (f.chain x 0).more = true := by
  rw [keepsRight, isSum_sumSign, List.all_eq_true]
  intro o ho
  cases minus with
  | false => cases o.1 <;> rfl
  | true =>
    rcases signs_of_not_hasSum (by simpa using h) 0 o ho with hop | hop <;> rw [hop] <;> rfl

theorem Comes.sum {l r : Formula} {minus : Bool} {a b : Rat}
    (hl : Comes run s (l.chain x m).whole a) (hr : Comes run s (r.chain x 0).whole b)
    (h : (minus && r.hasSum) = false) :
    Comes run s ((Formula.sum minus l r).chain x m).whole (if minus then a - b else a + b) := by
  refine hl.join hr ?_ (keepsRight_sum h) (combine_sumSign minus a b)
  rw [keepsLeft, isSum_sumSign]
  rfl

/-- What groups is read with its value. -/
theorem comes_chain (hq : s.lookup? x = some (.rational q)) {f : Formula}
    (hread : f.isReadable = true) (h : f.groups m = true) :
    Comes run s (f.chain x m).whole ((-1) ^ m * f.value q) := by
  -- The minuses stand at the first operand and have to come out of what it is an operand of: a
  -- product lets them, a power if it is odd, and a sum only if they cancel.
  induction f generalizing m with
  | number n =>
    have hn : Rational.isLong n = false := by simpa [isReadable] using hread
    exact (comes_numeral hn).minuses m
  | fraction a b =>
    simp only [isReadable, Bool.and_eq_true, Bool.not_eq_true', bne_iff_ne] at hread
    obtain ⟨⟨ha, hb⟩, hzero⟩ := hread
    have hcast : (b : Rat) ≠ 0 := Nat.cast_ne_zero.mpr hzero
    refine ((comes_numeral ha).minuses m).binary (comes_numeral hb) ?_
    rw [Value.combine, Value.div, Value.divRational, if_neg hcast, mul_div_assoc]
    rfl
  | name => exact (comes_var hq).minuses m
  | power k =>
    have hk : Rational.isLong k = false := by simpa [isReadable] using hread
    refine ((comes_var hq).minuses m).binary (comes_numeral hk) ?_
    have hsign : ((-1 : Rat) ^ m) ^ k = (-1) ^ m := by
      rcases Nat.mod_two_eq_zero_or_one m with hm | hm
      · rw [Even.neg_one_pow (Nat.even_iff.mpr hm), one_pow]
      · have hk : k % 2 = 1 := by simpa [groups, hm] using h
        rw [Odd.neg_one_pow (Nat.odd_iff.mpr hm), Odd.neg_one_pow (Nat.odd_iff.mpr hk)]
    rw [Value.combine, Value.power, Value.powRational_natCast, mul_pow, hsign, value]
  | negative _ a ih =>
    have ha := ih hread h
    rwa [pow_succ, mul_assoc, neg_one_mul] at ha
  | parens a ih =>
    have ha := ih (m := 0) hread h
    rw [pow_zero, one_mul] at ha
    exact ha.minuses m
  | sum minus l r ihl ihr =>
    simp only [groups, Bool.and_eq_true, beq_iff_eq, Bool.not_eq_true'] at h
    obtain ⟨⟨⟨hm, hl⟩, hr⟩, hminus⟩ := h
    obtain ⟨hreadl, hreadr⟩ := Bool.and_eq_true_iff.mp hread
    have hsign : (-1 : Rat) ^ m = 1 := Even.neg_one_pow (Nat.even_iff.mpr hm)
    have hleft := ihl hreadl hl
    have hright := ihr hreadr hr
    rw [hsign, one_mul] at hleft ⊢
    rw [pow_zero, one_mul] at hright
    exact hleft.sum hright hminus
  | product l r ihl ihr =>
    simp only [groups, Bool.and_eq_true, Bool.not_eq_true'] at h
    obtain ⟨⟨⟨hl, hr⟩, hsuml⟩, hsumr⟩ := h
    obtain ⟨hreadl, hreadr⟩ := Bool.and_eq_true_iff.mp hread
    have hright := ihr hreadr hr
    rw [pow_zero, one_mul] at hright
    rw [value, ← mul_assoc]
    refine (ihl hreadl hl).join hright ?_ ?_ rfl
    · rw [keepsLeft, Bool.or_eq_true, List.all_eq_true]
      refine .inr fun o ho => ?_
      rcases signs_of_not_hasSum hsuml m o ho with hop | hop <;> rw [hop] <;> rfl
    · rw [keepsRight, List.all_eq_true]
      intro o ho
      rcases signs_of_not_hasSum hsumr 0 o ho with hop | hop <;> rw [hop] <;> rfl

/-- Where the text groups as the formula does, it is read with the value of the formula. -/
theorem eval_reading {f : Formula} (hread : f.isReadable = true) (h : f.groups 0 = true)
    (s : Scope) (q : Rat) :
    (s.bind x (.rational q)).eval (f.reading x) = .ok (.rational (f.value q)) := by
  have hcomes : Comes (evalDeep 999) (s.bind x (.rational q)) (f.chain x 0).whole
      ((-1) ^ 0 * f.value q) := comes_chain (Scope.lookup?_bind rfl s x) hread h
  rw [pow_zero, one_mul] at hcomes
  exact hcomes.2

end Values
def addPart (f : Formula) (p : Formula × Bool) : Formula :=
  .sum p.2 f p.1

/-- Formulas that keep their meaning after the sign of a sum. -/
structure IsSummand (f : Formula) : Prop where
  signs : f.signsApart = true
  lead : f.leadsMinus = false
  flat : f.hasSum = false
  groups : f.groups 0 = true

def partsValue (q : Rat) (ps : List (Formula × Bool)) : Rat :=
  (ps.map (fun p => if p.2 then -p.1.value q else p.1.value q)).sum

section Parts
variable {x : String} {q v : Rat} {s : Scope} {run : Scope → Expr → Except Error Value}
  {f : Formula} {ps : List (Formula × Bool)}

theorem partsValue_cons (q : Rat) (p : Formula × Bool) (ps : List (Formula × Bool)) :
    partsValue q (p :: ps) = (if p.2 then -p.1.value q else p.1.value q) + partsValue q ps :=
  List.sum_cons

theorem text_foldl (f : Formula) (ps : List (Formula × Bool)) :
    (ps.foldl addPart f).text x = String.intercalate " "
      (f.text x :: ps.map (fun p => (if p.2 then "- " else "+ ") ++ p.1.text x)) := by
  induction ps generalizing f with
  | nil => rfl
  | cons p ps ih =>
    have hsign : (sumSign p.2).between = " " ++ (if p.2 then "- " else "+ ") := by
      cases p.2 <;> rfl
    have hpart : (addPart f p).text x =
        f.text x ++ " " ++ ((if p.2 then "- " else "+ ") ++ p.1.text x) := by
      rw [addPart, text, hsign]
      simp only [String.append_assoc]
    rw [List.foldl_cons, ih, hpart]
    rfl

/-- The value of a sum is that of its parts with their signs. -/
theorem value_foldl (q : Rat) (f : Formula) (ps : List (Formula × Bool)) :
    (ps.foldl addPart f).value q = f.value q + partsValue q ps := by
  induction ps generalizing f with
  | nil => simp [partsValue]
  | cons p ps ih =>
    rw [List.foldl_cons, ih, addPart, value, partsValue_cons]
    split <;> ring

theorem signsApart_foldl (hps : ∀ p ∈ ps, IsSummand p.1) (hf : f.signsApart = true) :
    (ps.foldl addPart f).signsApart = true := by
  induction ps generalizing f with
  | nil => exact hf
  | cons p ps ih =>
    obtain ⟨hp, hps⟩ := List.forall_mem_cons.mp hps
    apply ih hps
    simp [addPart, signsApart, hf, hp.signs, hp.lead]

theorem groups_foldl (hps : ∀ p ∈ ps, IsSummand p.1) (hf : f.groups 0 = true) :
    (ps.foldl addPart f).groups 0 = true := by
  induction ps generalizing f with
  | nil => exact hf
  | cons p ps ih =>
    obtain ⟨hp, hps⟩ := List.forall_mem_cons.mp hps
    apply ih hps
    simp [addPart, groups, hf, hp.groups, hp.flat]

/-- Whatever the first part is read with, the further parts add their values. -/
theorem comes_foldl (hq : s.lookup? x = some (.rational q))
    (hps : ∀ p ∈ ps, IsSummand p.1 ∧ p.1.isReadable = true)
    (hf : Comes run s (f.chain x 0).whole v) :
    Comes run s ((ps.foldl addPart f).chain x 0).whole (v + partsValue q ps) := by
  induction ps generalizing f v with
  | nil => simpa [partsValue] using hf
  | cons p ps ih =>
    obtain ⟨⟨hp, hread⟩, hps⟩ := List.forall_mem_cons.mp hps
    have hpart : Comes run s (p.1.chain x 0).whole _ := comes_chain hq hread hp.groups
    rw [pow_zero, one_mul] at hpart
    have hadd : Comes run s ((addPart f p).chain x 0).whole _ :=
      hf.sum hpart (by rw [hp.flat, Bool.and_false])
    have hvalue : v + partsValue q (p :: ps) =
        (if p.2 then v - p.1.value q else v + p.1.value q) + partsValue q ps := by
      rw [partsValue_cons]
      split <;> ring
    rw [hvalue]
    exact ih hps hadd

end Parts
end Formula
end Reckoner
