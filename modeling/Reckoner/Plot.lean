import Reckoner.Eval

namespace Reckoner

def Value.plotted (v : Value) : Except Error Float :=
  match v with
  | .rational q => Rational.toDouble q
  | .complex z => if z.im = 0 then Rational.toDouble z.re else .error .complexPlotValue
  | v =>
    match v.number? with
    | some n => n.toDouble
    | none => .error (.noPlotValue v.kind)

namespace Plot

structure Request where
  function : UserFunction
  start : Float
  stop : Float
  points : Int

def Request.check (r : Request) : Except Error Unit :=
  if r.points < 2 then .error .tooFewPoints
  else if r.start == r.stop then .error .sameBounds
  else if (Double.ofRat? (r.points - 1)).isNone then .error .integerTooLarge
  else .ok ()

def Request.arguments (r : Request) : List Float :=
  (List.range r.points.toNat).map (fun i =>
    r.start + Float.ofNat i * (r.stop - r.start) / Float.ofNat (r.points.toNat - 1))

def sample (s : Scope) (f : UserFunction) (x : Float) : Except Error Float := do
  let q ← Rational.ofDouble x
  let inner ← { s with home := .call }.assign f.param (.rational (Rational.settle q))
  let v ← inner.eval f.body
  v.plotted

/-- Points with the function's values, no number where it has none. -/
def Request.samples (r : Request) (s : Scope) : List (Float × Float) :=
  r.arguments.map (fun x =>
    (x, match sample s r.function x with
      | .ok y => y
      | .error _ => Double.notANumber))

def columns : Nat := 60

def lines : Nat := 20

inductive Failure where
  | noPoints
  | singlePoint
  | flat
  | notANumber
  | infinite

def Failure.message : Failure → String
  | noPoints => "No plottable numeric points were produced"
  | singlePoint => "Plot failed: division by zero"
  | flat => "Plot failed: float division by zero"
  | notANumber => "Plot failed: cannot convert float NaN to integer"
  | infinite => "Plot failed: cannot convert float infinity to integer"

def cut (x : Float) : Except Failure Int :=
  if x.isNaN then .error .notANumber
  else if Double.isInfinite x then .error .infinite
  else .ok (Int.tdiv (Double.value x).num (Double.value x).den)

def column (i n : Nat) : Except Failure Int :=
  if n = 1 then .error .singlePoint
  else cut (Double.ofRat (mkRat i (n - 1)) * 59.0)

/-- The line of a value, counted from the top. -/
def line (low high y : Float) : Except Failure Int := do
  if high - low == 0.0 then .error .flat
  else
    let k ← cut ((1.0 - (y - low) / (high - low)) * 19.0)
    return max 0 (min 19 k)

def places (low high : Float) (n : Nat) : Nat → List Float → Except Failure (List (Int × Int))
  | _, [] => .ok []
  | i, y :: ys => do
    let c ← column i n
    let l ← line low high y
    let rest ← places low high n (i + 1) ys
    return (c, l) :: rest

def least (y : Float) (ys : List Float) : Float :=
  ys.foldl (fun m z => if z < m then z else m) y

def greatest (y : Float) (ys : List Float) : Float :=
  ys.foldl (fun m z => if m < z then z else m) y

/-- The bounds of a drawing; a constant function has room above and below. -/
def bounds (y : Float) (ys : List Float) : Float × Float :=
  let low := least y ys
  let high := greatest y ys
  if low == high then (low - 1.0, high + 1.0) else (low, high)

def lineText (marked : List Int) : String :=
  String.ofList ((List.range columns).map (fun (c : Nat) =>
    if marked.contains (c : Int) then '*' else ' '))

def drawing (marks : List (Int × Int)) : String :=
  String.intercalate "\n"
    ((List.range lines).map (fun (l : Nat) =>
      lineText ((marks.filter (fun m => m.2 == (l : Int))).map Prod.fst)))

def draw (samples : List (Float × Float)) : Except Failure (String × Nat) :=
  match (samples.map Prod.snd).filter Double.isFinite with
  | [] => .error .noPoints
  | y :: ys => do
    let (low, high) := bounds y ys
    let n := ys.length + 1
    let marks ← places low high n 0 (y :: ys)
    return (drawing marks, n)

def footer (r : Request) (drawn all : Nat) : String :=
  "x in [" ++ Decimal.text r.start ++ ", " ++ Decimal.text r.stop ++ "], " ++ toString drawn
    ++ "/" ++ toString all ++ " points plottable"

def Request.picture (r : Request) (s : Scope) : String :=
  let samples := r.samples s
  match draw samples with
  | .error e => e.message
  | .ok (picture, n) => picture ++ "\n" ++ footer r n samples.length

/-- A curve for a program that draws. -/
structure Curve where
  points : List (Float × Float)
  title : String
  across : String
  up : String

def Request.curve? (r : Request) (s : Scope) : Option Curve :=
  match (r.samples s).filter (fun p => !p.2.isNaN) with
  | [] => none
  | ps =>
    let name := r.function.name.getD ""
    some
      { points := ps
        title := (if name = "" then "f" else name) ++ "(" ++ r.function.param ++ ")"
        across := r.function.param
        up := "f" }

def request (v : Value) (start stop : Float) (points : Int) : Except Error Request :=
  match v with
  | .function f => do
    let r : Request := ⟨f, start, stop, points⟩
    r.check
    return r
  | _ => .error .plotNeedsFunction

def run (s : Scope) (v : Value) (start stop : Float) (points : Int) : Except Error String := do
  return (← request v start stop points).picture s

def curve (s : Scope) (v : Value) (start stop : Float) (points : Int) :
    Except Error (Option Curve) := do
  return (← request v start stop points).curve? s

end Plot
end Reckoner
