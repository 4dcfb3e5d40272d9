import Reckoner.Eval
import Reckoner.Expr.Printer
import Reckoner.Expr.Subst

namespace Reckoner

def Value.inBody (v : Value) : Except Error String :=
  match v with
  | .rational q =>
    if q.den = 1 then v.text? else Decimal.text <$> Rational.toDouble q
  | v => v.text?

namespace Body

/-- A sum taken apart: texts with their signs in the order of the source, and the sum of the
constants. -/
structure Sum where
  parts : List (String × Bool)
  constant : Rat

def Sum.ofPart (s : String) : Sum :=
  ⟨[(s, false)], 0⟩

def Sum.add (a b : Sum) : Sum :=
  ⟨a.parts ++ b.parts, a.constant + b.constant⟩

def Sum.sub (a b : Sum) : Sum :=
  ⟨a.parts ++ b.parts.map (fun p => (p.1, !p.2)), a.constant - b.constant⟩

def partText (first : Bool) (p : String × Bool) : String :=
  if p.2 then "- " ++ p.1 else if first then p.1 else "+ " ++ p.1

def partTexts : List (String × Bool) → List String
  | [] => []
  | p :: ps => partText true p :: ps.map (partText false)

def Sum.text (a : Sum) : Except Error String := do
  if a.constant = 0 then return Text.trim (String.intercalate " " (partTexts a.parts))
  else
    let c ← (Value.rational a.constant).inBody
    return Text.trim (String.intercalate " " (c :: a.parts.map (partText false)))

/-- A part without the parameter is shown by its present value, or as it is written if it has
none. -/
def constantText (s : Scope) (e : Expr) : String :=
  match s.eval e with
  | .error _ => e.text
  | .ok v =>
    if v.isAbsent then ""
    else
      match v.inBody with
      | .error _ => e.text
      | .ok t => t

def constant? (s : Scope) (e : Expr) : Option Rat :=
  match s.eval e with
  | .error _ => none
  | .ok (.rational q) => some q
  | .ok v =>
    match v.number? with
    | none => none
    | some n => n.settled.toOption

structure Rendering where
  text : Except Error String
  sum : Except Error Sum

def leaf (s : Scope) (x : String) (e : Expr) (text : Except Error String) : Except Error Sum :=
  match e with
  | .absent => .error (.notSubscriptable "NoneType")
  | e =>
    if e.mentions x then Sum.ofPart <$> text
    else
      match constant? s e with
      | some q => .ok ⟨[], q⟩
      | none => Sum.ofPart <$> text

def sumOf (op : BinOp) (a b : Except Error Sum) : Except Error Sum := do
  let l ← a
  let r ← b
  return if op = .sub then l.sub r else l.add r

mutual
/-- How a part of the body of a function of `x` is rendered. -/
def render (s : Scope) (x : String) (e : Expr) : Rendering :=
  match e with
  | .binary op l r =>
    let a := render s x l
    let b := render s x r
    if op = .add ∨ op = .sub then
      let sum := sumOf op a.sum b.sum
      ⟨if e.mentions x then sum >>= Sum.text else .ok (constantText s e), sum⟩
    else
      let text : Except Error String :=
        if e.mentions x then do return Expr.joined op l r (← a.text) (← b.text)
        else .ok (constantText s e)
      ⟨text, leaf s x e text⟩
  | .unary op a =>
    let text :=
      if e.mentions x then (op.sign ++ ·) <$> (render s x a).text else .ok (constantText s e)
    ⟨text, leaf s x e text⟩
  | .call f a =>
    let text :=
      if e.mentions x then (fun t => f ++ Expr.inParens t) <$> (render s x a).text
      else .ok (constantText s e)
    ⟨text, leaf s x e text⟩
  | .matrix rows =>
    let text :=
      if e.mentions x then Expr.rowsText <$> renderRows s x rows else .ok (constantText s e)
    ⟨text, leaf s x e text⟩
  | e =>
    let text := .ok (if e.mentions x then e.text else constantText s e)
    ⟨text, leaf s x e text⟩

def renderRow (s : Scope) (x : String) : List Expr → Except Error (List String)
  | [] => .ok []
  | e :: es => do
    let t ← (render s x e).text
    let ts ← renderRow s x es
    return t :: ts

def renderRows (s : Scope) (x : String) : List (List Expr) → Except Error (List String)
  | [] => .ok []
  | r :: rs => do
    let ts ← renderRow s x r
    let rest ← renderRows s x rs
    return Expr.rowText ts :: rest
end

end Body

/-- The text of the body of a function of `x`. The constants of a sum are added up and written
first. -/
def Scope.bodyText (s : Scope) (x : String) (body : Expr) : Except Error String :=
  (Body.render s x body).text

end Reckoner
