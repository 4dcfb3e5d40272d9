import Reckoner.Expr
import Reckoner.Error
import Reckoner.Text.Lower
import Reckoner.Token.Lexer

namespace Reckoner.Parser

/-- Reading takes tokens off the front of a line. What is left stays known when it fails. -/
abbrev Read (α : Type) : Type :=
  ExceptT SyntaxError (StateM (List Token)) α

def Read.from (r : Read α) (ts : List Token) : Except SyntaxError α × List Token :=
  (r.run.run ts)

def fail (e : SyntaxError) : Read α :=
  throw e

def next? : Read (Option Token) := do
  return (← get).head?

def nextKind? : Read (Option TokenKind) := do
  return (← next?).map Token.kind

def take : Read Token := do
  match ← get with
  | [] => fail .endOfInput
  | t :: ts =>
    set ts
    return t

def takeNamed (name : String) : Read Token := do
  match ← get with
  | [] => fail .endOfInput
  | t :: ts =>
    if t.kind.name = name then
      set ts
      return t
    else fail (.expected name t.kind)

def takeKind (k : TokenKind) : Read Token :=
  takeNamed k.name

def productOp? : TokenKind → Option BinOp
  | .multiply => some .mul
  | .divide => some .div
  | .modulo => some .mod
  | .matMul => some .matMul
  | _ => none

def sumOp? : TokenKind → Option BinOp
  | .plus => some .add
  | .minus => some .sub
  | _ => none

def startsFactor : TokenKind → Bool
  | .number | .identifier | .lparen | .lbracket => true
  | _ => false

mutual

/-- A sum is built from terms, a term from powers and a power from factors. The number bounds the
depth of the reading, and a reading at depth zero has no tokens left. -/
def expression : Nat → Read Expr
  | 0 => fail .endOfExpression
  | n + 1 => do
    let left ← term n
    sumTail n left

def sumTail : Nat → Expr → Read Expr
  | 0, left => pure left
  | n + 1, left => do
    match (← nextKind?).bind sumOp? with
    | none => return left
    | some op =>
      let _ ← take
      if ((← nextKind?).bind sumOp?).isSome then fail .consecutiveSigns
      let right ← term n
      sumTail n (.binary op left right)

def term : Nat → Read Expr
  | 0 => fail .endOfExpression
  | n + 1 => do
    let left ← power n
    productTail n left

def productTail : Nat → Expr → Read Expr
  | 0, left => pure left
  | n + 1, left => do
    match ← nextKind? with
    | none => return left
    | some k =>
      match productOp? k with
      | some op =>
        let _ ← take
        let right ← power n
        productTail n (.binary op left right)
      | none =>
        if startsFactor k then
          let right ← power n
          productTail n (.binary .mul left right)
        else return left

def power : Nat → Read Expr
  | 0 => fail .endOfExpression
  | n + 1 => do
    let base ← factor n
    if (← nextKind?) = some .power then
      let _ ← take
      let exponent ← power n
      return .binary .pow base exponent
    else return base

def factor : Nat → Read Expr
  | 0 => fail .endOfExpression
  | n + 1 => do
    match ← next? with
    | none => fail .endOfExpression
    | some t =>
      match t.kind with
      | .minus =>
        let _ ← take
        let arg ← factor n
        return .unary .neg arg
      | .lparen =>
        let _ ← take
        let e ← expression n
        let _ ← takeKind .rparen
        return e
      | .lbracket => matrix n
      | .number =>
        let _ ← take
        return .number t.text
      | .identifier =>
        let _ ← take
        if t.text = "i" then return .imaginary
        else if (← nextKind?) = some .lparen then
          let _ ← take
          let arg ← expression n
          let _ ← takeKind .rparen
          return .call t.text arg
        else return .var t.text
      | k => fail (.unexpectedToken k)

def matrix : Nat → Read Expr
  | 0 => fail .endOfExpression
  | n + 1 => do
    let _ ← takeKind .lbracket
    let rows ← items n []
    let _ ← takeKind .rbracket
    if rows.isEmpty then fail .emptyMatrix
    return .matrix rows

/-- The rows of a matrix up to its closing bracket: rows in brackets of their own, and single
elements, which gather in a pending row until a semicolon or the end. -/
def items : Nat → List Expr → Read (List (List Expr))
  | 0, pending => pure (if pending.isEmpty then [] else [pending])
  | n + 1, pending => do
    match ← nextKind? with
    | none | some .rbracket => return if pending.isEmpty then [] else [pending]
    | some .lbracket =>
      let _ ← take
      let row ← rowItems n
      let _ ← takeKind .rbracket
      if (← nextKind?) = some .comma || (← nextKind?) = some .semicolon then
        let _ ← take
      let rows ← items n pending
      return row :: rows
    | some _ =>
      let e ← expression n
      match ← nextKind? with
      | some .semicolon =>
        let _ ← take
        let rows ← items n []
        return (pending ++ [e]) :: rows
      | some .comma =>
        let _ ← take
        items n (pending ++ [e])
      | _ => items n (pending ++ [e])

def rowItems : Nat → Read (List Expr)
  | 0 => pure []
  | n + 1 => do
    match ← nextKind? with
    | none | some .rbracket => return []
    | some _ =>
      let e ← expression n
      if (← nextKind?) = some .comma then
        let _ ← take
        let es ← rowItems n
        return e :: es
      else return [e]

end

/-- Deep enough for every reading of a line: between two tokens taken, a reading goes down by at
most six steps. -/
def depth (ts : List Token) : Nat :=
  8 * (ts.length + 1)

def whole (reading : Nat → Read α) : Read α := do
  reading (depth (← get))

/-- A name followed by an equals sign, with or without a parameter in between. -/
def isAssignment (line : List Token) : Bool :=
  match line.map Token.kind with
  | .identifier :: .assign :: _ => true
  | .identifier :: .lparen :: .identifier :: .rparen :: .assign :: _ => true
  | _ => false

/-- An equals sign and a question mark, unless the line begins with a name and an equals sign. -/
def isEquation (line : List Token) : Bool :=
  match line.map Token.kind with
  | .identifier :: .assign :: _ => false
  | ks => ks.contains .assign && ks.contains .question

def assignment : Read Statement := do
  let name ← takeKind .identifier
  if Text.lower name.text = "i" then fail .reservedName
  if (← nextKind?) = some .lparen then
    let _ ← take
    let param ← takeKind .identifier
    if Text.lower param.text = "i" then fail .reservedParameter
    let _ ← takeKind .rparen
    let _ ← takeKind .assign
    return .define name.text param.text (← whole expression)
  else
    let _ ← takeKind .assign
    return .assign name.text (← whole expression)

def equation : Read Statement := do
  let left ← whole expression
  let _ ← takeKind .assign
  if (← nextKind?) = some .question then
    let _ ← take
    return .equation left none
  else
    let right ← whole expression
    let _ ← takeKind .question
    return .equation left (some right)

/-- The statement that a line makes; nothing for a line without tokens. The tokens of the whole
line tell which kind of statement it is. -/
def statement (line : List Token) : Read (Option Statement) := do
  if line.isEmpty then return none
  let s ←
    if isEquation line then equation
    else if isAssignment line then assignment
    else .expression <$> whole expression
  match ← next? with
  | none => return some s
  | some t => fail (.leftover t.text t.pos)

/-- The token at a distance from the one at `pos`. Before the first token come the last ones
again. -/
def peek (line : List Token) (pos : Nat) (offset : Int) : Except Error (Option Token) :=
  let i := (pos : Int) + offset
  if 0 ≤ i then .ok (line.drop i.toNat).head?
  else if i.natAbs ≤ line.length then .ok (line.drop (line.length - i.natAbs)).head?
  else .error .listIndex

def parse (line : List Token) : Except SyntaxError (Option Statement) :=
  ((statement line).from line).1

def read (text : String) : Except SyntaxError (Option Statement) := do
  parse (← Token.lex text)

end Reckoner.Parser
