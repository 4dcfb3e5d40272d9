import Reckoner.Body
import Reckoner.Equation
import Reckoner.Expr.Parser
import Reckoner.Inline
import Reckoner.Plot
import Reckoner.Text.Blank
import Reckoner.Token.Lexer

namespace Reckoner

/-- The text of a result. A function is shown by its body. -/
def Value.result (v : Value) : Except Error String :=
  match v with
  | .function f => .ok f.body.text
  | v => v.text?

namespace Session

/-- What a line has come to: its text, if any, and the scope after it. -/
abbrev Outcome := Except Error (Option String) × Scope

def tokens (line : String) : Except Error (List Token) :=
  (Token.lex line).mapError .badTokens

def read (line : String) : Except Error (Option Statement) := do
  let ts ← tokens line
  (Parser.parse ts).mapError .badGrammar

def listing (s : Scope) : Except Error String := do
  if s.bindings.isEmpty then return "No variables defined"
  else
    let sorted := Sorted.sort (fun a b => decide (a.1 ≤ b.1)) s.bindings
    let lines ← sorted.mapM (fun b => do return b.1 ++ " = " ++ (← b.2.result))
    return String.intercalate "\n" lines

def angles (s : Scope) (words : List String) : Except Error (String × Scope) :=
  match words with
  | [_] => .ok ("angle mode: " ++ s.mode.name, s)
  | [_, mode] =>
    match s.setMode mode with
    | .error _ => .error .angleCommand
    | .ok s => .ok ("angle mode set to " ++ s.mode.name, s)
  | _ => .error .angleUsage

def plotBound (word : String) : Except Error Float :=
  match Double.read? word with
  | none => .error .plotBounds
  | some x => .ok x

def plotCount : List String → Except Error Int
  | [] => .ok 200
  | word :: _ => (Rational.readInteger word).mapError (fun _ => .plotPoints)

def plot (s : Scope) (words : List String) : Except Error String :=
  match words with
  | _ :: name :: start :: stop :: more => do
    let x ← plotBound start
    let y ← plotBound stop
    let n ← plotCount more
    match s.lookup? name with
    | none => .error (.undefinedFunction name)
    | some (.function f) => Plot.run s (.function f) x y n
    | some _ => .error (.notFunction name)
  | _ => .error .plotUsage

/-- An expression with its functions written out: its value, or itself if variables remain. -/
def writtenOut (s : Scope) (e : Expr) : Except Error String := do
  let inlined ← s.inline e
  if inlined.hasVariables then return inlined.text
  else (← s.eval inlined).result

def request (s : Scope) (e : Expr) : Except Error String :=
  match writtenOut s e with
  | .ok t => .ok t
  | .error _ => do (← s.eval e).result

def assign (s : Scope) (name : String) (e : Expr) : Outcome :=
  match s.eval e with
  | .error err => (.error err, s)
  | .ok v =>
    match s.assign name v with
    | .error err => (.error err, s)
    | .ok after => (some <$> v.result, after)

/-- A definition is kept even if its body cannot be shown. -/
def define (s : Scope) (name param : String) (body : Expr) : Outcome :=
  match s.assign name (.function ⟨param, body, some name⟩) with
  | .error err => (.error err, s)
  | .ok after => (some <$> after.bodyText param body, after)

def perform (s : Scope) : Statement → Outcome
  | .expression e => (do return some (← (← s.eval e).result), s)
  | .assign name e => assign s name e
  | .define name param body => define s name param body
  | .equation l none => (some <$> request s l, s)
  | .equation l (some r) => ((fun a => some a.text) <$> Equation.solve s l r, s)

def statement (s : Scope) (line : String) : Outcome :=
  match read line with
  | .error e => (.error e, s)
  | .ok none => (.ok none, s)
  | .ok (some st) => perform s st

/-- Carry out a line in the scope that the lines before have left. -/
def execute (s : Scope) (text : String) : Outcome :=
  let line := Text.trim text
  let low := Text.lower line
  if line = "" then (.ok none, s)
  else if low = "vars" ∨ low = "display" ∨ low = "show" then (some <$> listing s, s)
  else if low.startsWith "angles" then
    match angles s (Text.words line) with
    | .error e => (.error e, s)
    | .ok (t, after) => (.ok (some t), after)
  else if low.startsWith "plot " then (some <$> plot s (Text.words line), s)
  else statement s line

end Session
end Reckoner
