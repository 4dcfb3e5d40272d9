import Reckoner.Proofs.Grammar.Steps

namespace Reckoner.Parser
open Grammar

inductive Call where
  | expression
  /-- The loop over the signs of a sum, with what is read so far. -/
  | sumTail (left : Expr)
  | term
  | productTail (left : Expr)
  | power
  | factor
  | matrix
  /-- The loop over the items of a matrix. -/
  | items (pending : List Expr)
  | rowItems

abbrev Call.Result : Call → Type
  | expression | sumTail _ | term | productTail _ | power | factor | matrix => Expr
  | items _ => List (List Expr)
  | rowItems => List Expr

/-- What a reading does, step by step: it looks at the next token, takes it, or calls a reading,
which may be the next pass of a loop. -/
inductive Program (α : Type) where
  | done (a : α)
  | fail (e : SyntaxError)
  | look (go : Option Token → Program α)
  | take (go : Token → Program α)
  | call (c : Call) (go : c.Result → Program α)

namespace Program
variable {α : Type}

def lookKind (go : Option TokenKind → Program α) : Program α :=
  .look fun t => go (t.map Token.kind)

def expect (k : TokenKind) (go : Program α) : Program α :=
  .look fun
    | none => .fail .endOfInput
    | some t => if t.kind = k then .take fun _ => go else .fail (.expected k.name t.kind)

def skipSeparator (go : Program α) : Program α :=
  .lookKind fun k =>
    if k = some .comma ∨ k = some .semicolon then .take fun _ => go else go

end Program

namespace Call

def factorProgram (t : Token) : Program Expr :=
  match t.kind with
  | .minus => .take fun _ => .call .factor fun arg => .done (.unary .neg arg)
  | .lparen => .take fun _ => .call .expression fun e => .expect .rparen (.done e)
  | .lbracket => .call .matrix .done
  | .number => .take fun _ => .done (.number t.text)
  | .identifier => .take fun _ =>
    if t.text = "i" then .done .imaginary
    else .lookKind fun k =>
      if k = some .lparen then
        .take fun _ => .call .expression fun arg => .expect .rparen (.done (.call t.text arg))
      else .done (.var t.text)
  | k => .fail (.unexpectedToken k)

def elementProgram (row : List Expr) : Option TokenKind → Program (List (List Expr))
  | some .semicolon => .take fun _ => .call (.items []) fun rows => .done (row :: rows)
  | some .comma => .take fun _ => .call (.items row) .done
  | _ => .call (.items row) .done

def itemsProgram (pending : List Expr) : Option TokenKind → Program (List (List Expr))
  | none | some .rbracket => .done (if pending.isEmpty then [] else [pending])
  | some .lbracket => .take fun _ => .call .rowItems fun row =>
    .expect .rbracket (.skipSeparator (.call (.items pending) fun rows => .done (row :: rows)))
  | some _ => .call .expression fun e => .lookKind (elementProgram (pending ++ [e]))

def rowItemsProgram : Option TokenKind → Program (List Expr)
  | none | some .rbracket => .done []
  | some _ => .call .expression fun e => .lookKind fun k =>
    if k = some .comma then .take fun _ => .call .rowItems fun es => .done (e :: es) else .done [e]

def productProgram (left : Expr) (k : TokenKind) : Program Expr :=
  match productOp? k with
  | some op =>
    .take fun _ => .call .power fun right => .call (.productTail (.binary op left right)) .done
  | none =>
    if startsFactor k then
      .call .power fun right => .call (.productTail (.binary .mul left right)) .done
    else .done left

/-- What each reading does. A loop ends or calls itself for its next pass. -/
def program : (c : Call) → Program c.Result
  | .expression => .call .term fun left => .call (.sumTail left) .done
  | .sumTail left => .lookKind fun k =>
    match k.bind sumOp? with
    | none => .done left
    | some op => .take fun _ => .lookKind fun k =>
      if (k.bind sumOp?).isSome then .fail .consecutiveSigns
      else .call .term fun right => .call (.sumTail (.binary op left right)) .done
  | .term => .call .power fun left => .call (.productTail left) .done
  | .productTail left => .lookKind fun
    | none => .done left
    | some k => productProgram left k
  | .power => .call .factor fun base => .lookKind fun k =>
    if k = some .power then
      .take fun _ => .call .power fun exponent => .done (.binary .pow base exponent)
    else .done base
  | .factor => .look fun
    | none => .fail .endOfExpression
    | some t => factorProgram t
  | .matrix => .expect .lbracket <| .call (.items []) fun rows => .expect .rbracket <|
    if rows.isEmpty then .fail .emptyMatrix else .done (.matrix rows)
  | .items pending => .lookKind (itemsProgram pending)
  | .rowItems => .lookKind rowItemsProgram

end Call

/-- The finite runs of a program: what it comes to, and the tokens that it leaves. A reading that
went on for ever would have none. -/
inductive Runs :
    {α : Type} → Program α → List Token → Except SyntaxError α → List Token → Prop where
  | done {α : Type} {a : α} {ts : List Token} : Runs (.done a) ts (.ok a) ts
  | fail {α : Type} {e : SyntaxError} {ts : List Token} :
      Runs (.fail e : Program α) ts (.error e) ts
  | look {α : Type} {go : Option Token → Program α} {ts rest : List Token}
      {r : Except SyntaxError α} (h : Runs (go ts.head?) ts r rest) : Runs (.look go) ts r rest
  | takeEnd {α : Type} {go : Token → Program α} : Runs (.take go) [] (.error .endOfInput) []
  | take {α : Type} {go : Token → Program α} {t : Token} {ts rest : List Token}
      {r : Except SyntaxError α} (h : Runs (go t) ts r rest) : Runs (.take go) (t :: ts) r rest
  | callFail {α : Type} {c : Call} {go : c.Result → Program α} {ts rest : List Token}
      {e : SyntaxError} (h : Runs c.program ts (.error e) rest) :
      Runs (.call c go) ts (.error e) rest
  | call {α : Type} {c : Call} {go : c.Result → Program α} {ts mid rest : List Token}
      {a : c.Result} {r : Except SyntaxError α} (h : Runs c.program ts (.ok a) mid)
      (h' : Runs (go a) mid r rest) : Runs (.call c go) ts r rest

/-- A program has at most one run. -/
theorem Runs.unique {α : Type} {p : Program α} {ts rest rest' : List Token}
    {r r' : Except SyntaxError α} (h : Runs p ts r rest) (h' : Runs p ts r' rest') :
    r = r' ∧ rest = rest' := by
  induction h generalizing rest' with
  | done | fail | takeEnd =>
    cases h'
    exact ⟨rfl, rfl⟩
  | look _ ih =>
    cases h' with
    | look h' => exact ih h'
  | take _ ih =>
    cases h' with
    | take h' => exact ih h'
  | callFail _ ih =>
    cases h' with
    | callFail h' =>
      obtain ⟨he, hrest⟩ := ih h'
      cases he
      exact ⟨rfl, hrest⟩
    | call h' _ => cases (ih h').1
  | call _ _ ih ihgo =>
    cases h' with
    | callFail h' => cases (ih h').1
    | call h' hgo =>
      obtain ⟨ha, rfl⟩ := ih h'
      cases ha
      exact ihgo hgo

def Program.read {α : Type} (run : (c : Call) → Read c.Result) : Program α → Read α
  | .done a => pure a
  | .fail e => Parser.fail e
  | .look go => next? >>= fun t => (go t).read run
  | .take go => Parser.take >>= fun t => (go t).read run
  | .call c go => run c >>= fun a => (go a).read run

def reading (n : Nat) : (c : Call) → Read c.Result
  | .expression => expression n
  | .sumTail left => sumTail n left
  | .term => term n
  | .productTail left => productTail n left
  | .power => power n
  | .factor => factor n
  | .matrix => matrix n
  | .items pending => items n pending
  | .rowItems => rowItems n

section Equations
variable {α : Type} {run : (c : Call) → Read c.Result}

/-- Readings that do the same to all tokens are the same. -/
theorem Read.ext {r r' : Read α} (h : ∀ ts, r.from ts = r'.from ts) : r = r' :=
  funext h

theorem fail_bind {β : Type} (e : SyntaxError) (f : α → Read β) : (fail e >>= f) = fail e := rfl

/-- Looking twice sees the same token. -/
theorem nextKind?_twice (f : Option TokenKind → Option TokenKind → Read α) :
    (nextKind? >>= fun j => nextKind? >>= fun k => f j k) = nextKind? >>= fun k => f k k :=
  Read.ext fun _ => rfl

theorem read_lookKind (go : Option TokenKind → Program α) :
    (Program.lookKind go).read run = nextKind? >>= fun k => (go k).read run :=
  Read.ext fun _ => rfl

theorem read_ite (c : Prop) [Decidable c] (p q : Program α) :
    (if c then p else q).read run = if c then p.read run else q.read run :=
  apply_ite _ c p q

/-- Taking a token of a given kind is one step of a reading. -/
theorem read_expect (k : TokenKind) (p : Program α) :
    (Program.expect k p).read run = takeKind k >>= fun _ => p.read run := by
  refine Read.ext fun ts => ?_
  cases ts with
  | nil => rfl
  | cons t ts =>
    have hexpect : ((Program.expect k p).read run).from (t :: ts) =
        ((if t.kind = k then Program.take fun _ => p
          else .fail (.expected k.name t.kind)).read run).from (t :: ts) := rfl
    have htake : (takeKind k >>= fun _ => p.read run).from (t :: ts) =
        ((if t.kind.name = k.name then (do set ts; return t) else fail (.expected k.name t.kind)
          : Read Token) >>= fun _ => p.read run).from (t :: ts) := rfl
    rw [hexpect, htake]
    by_cases hk : t.kind = k
    · rw [if_pos hk, if_pos (name_inj.mpr hk)]
      rfl
    · rw [if_neg hk, if_neg (fun h => hk (name_inj.mp h))]
      rfl

-- Readings are unfolded for this equation only; later proofs go by it.
attribute [local simp] expression sumTail term productTail power factor matrix items rowItems

/-- The readings carry out their programs, with one more step of depth. -/
theorem reading_succ (n : Nat) (c : Call) : reading (n + 1) c = c.program.read (reading n) := by
  cases c with
  | expression => simp only [reading, expression, Call.program, Program.read, bind_pure]
  | sumTail left =>
    simp only [reading, sumTail, Call.program, read_lookKind]
    refine congrArg _ (funext fun k => ?_)
    cases k.bind sumOp? with
    | none => rfl
    | some op => simp only [Program.read, read_lookKind, read_ite, bind_pure, fail_bind, reading]
  | term => simp only [reading, term, Call.program, Program.read, bind_pure]
  | productTail left =>
    simp only [reading, productTail, Call.program, read_lookKind]
    refine congrArg _ (funext fun k => ?_)
    cases k with
    | none => rfl
    | some k =>
      simp only [Call.productProgram]
      cases productOp? k with
      | none => simp only [Program.read, read_ite, bind_pure, reading]
      | some op => simp only [Program.read, bind_pure, reading]
  | power => simp only [reading, power, Call.program, Program.read, read_lookKind, read_ite]
  | factor =>
    simp only [reading, factor, Call.program, Program.read]
    refine congrArg _ (funext fun t => ?_)
    cases t with
    | none => rfl
    | some t =>
      simp only [Call.factorProgram]
      cases t.kind <;>
        simp only [Program.read, read_lookKind, read_ite, read_expect, bind_pure, reading]
  | matrix =>
    simp only [reading, matrix, Call.program, Program.read, read_expect, read_ite, fail_bind]
  | items pending =>
    simp only [reading, items, Call.program, read_lookKind]
    refine congrArg _ (funext fun k => ?_)
    cases k with
    | none => rfl
    | some k =>
      cases k with
      | rbracket => rfl
      | lbracket =>
        simp only [Call.itemsProgram, Program.read, read_expect, Program.skipSeparator,
          read_lookKind, read_ite, reading, nextKind?_twice, Bool.or_eq_true, decide_eq_true_eq]
      | _ =>
        simp only [Call.itemsProgram, Program.read, read_lookKind, reading]
        refine congrArg _ (funext fun e => congrArg _ (funext fun k => ?_))
        rcases k with _ | k
        · simp only [Call.elementProgram, Program.read, bind_pure, reading]
        · cases k <;> simp only [Call.elementProgram, Program.read, bind_pure, reading]
  | rowItems =>
    simp only [reading, rowItems, Call.program, read_lookKind]
    refine congrArg _ (funext fun k => ?_)
    cases k with
    | none => rfl
    | some k =>
      cases k with
      | rbracket => rfl
      | _ => simp only [Call.rowItemsProgram, Program.read, read_lookKind, read_ite, reading]

end Equations

end Reckoner.Parser
