import Reckoner.Text.Lower
import Reckoner.Value

namespace Reckoner

/-- What names mean. Names are told apart without regard to case, so they are kept in lower case; a
name that is not bound may still be that of a builtin function. -/
structure Scope where
  /-- Names in lower case with their values, in the order in which they were first bound. -/
  bindings : List (String × Value)
  /-- The session's unit of angles. -/
  mode : AngleMode
  home : Home

namespace Scope

def empty : Scope :=
  ⟨[], .radians, .session⟩

def set (name : String) (v : Value) : List (String × Value) → List (String × Value)
  | [] => [(name, v)]
  | (k, w) :: bs => if k = name then (k, v) :: bs else (k, w) :: set name v bs

def bind (s : Scope) (name : String) (v : Value) : Scope :=
  { s with bindings := set (Text.lower name) v s.bindings }

/-- The scope of some names. A name given twice, in the same case, has its last value in its first
place; of names that differ in case the last one counts. -/
def ofList (names : List (String × Value)) : Scope :=
  let exact := names.foldl (fun bs b => set b.1 b.2 bs) []
  exact.foldl (fun s b => s.bind b.1 b.2) empty

def assign (s : Scope) (name : String) (v : Value) : Except Error Scope :=
  if Text.lower name = "i" then .error .reservedName else .ok (s.bind name v)

/-- The scope of a call: the parameter is bound over the names of the caller. -/
def enter (s : Scope) (param : String) (v : Value) : Scope :=
  { s.bind param v with home := .call }

/-- What a name stands for. A name bound to nothing hides the builtin function of that name. -/
def lookup? (s : Scope) (name : String) : Option Value :=
  let key := Text.lower name
  match s.bindings.lookup key with
  | some v => if v.isAbsent then none else some v
  | none => (Builtin.ofName? key).map (fun b => .builtin b s.home)

def function? (s : Scope) (name : String) : Option UserFunction :=
  match s.lookup? name with
  | some (.function f) => some f
  | _ => none

/-- The unit of angles that a builtin function from a given home goes by. -/
def modeOf (s : Scope) : Home → AngleMode
  | .session => s.mode
  | .call => .radians

def setMode (s : Scope) (name : String) : Except Error Scope :=
  match AngleMode.ofName? (Text.lower name) with
  | none => .error .unknownAngleMode
  | some m => .ok { s with mode := m }

end Scope

/-- How deep the bodies of functions may be entered from each other, when they are evaluated or
written out. It stands for the limit of the stack and does not count its frames. -/
def maxDepth : Nat := 1000

end Reckoner
