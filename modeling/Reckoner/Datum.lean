import Reckoner.Decimal.Layout
import Reckoner.Text.Quoted

namespace Reckoner

/-- Plain data: what a caller may hand to the calculator that is no number of its own, what stands
in the history file, and the general shape of a tree. -/
inductive Datum where
  | absent
  | bool (b : Bool)
  | int (n : Int)
  | float (x : Float)
  | text (s : String)
  | tuple (items : List Datum)
  | list (items : List Datum)
  | dict (entries : List (String × Datum))

namespace Datum

instance : Inhabited Datum := ⟨absent⟩

def kind : Datum → String
  | absent => "NoneType"
  | bool _ => "bool"
  | int _ => "int"
  | float _ => "float"
  | text _ => "str"
  | tuple _ => "tuple"
  | list _ => "list"
  | dict _ => "dict"

def commaList (items : List String) : String :=
  String.intercalate ", " items

/-- Items in parentheses. A comma tells one item from a datum in parentheses. -/
def tupleText : List String → String
  | [item] => "(" ++ item ++ ",)"
  | items => "(" ++ commaList items ++ ")"

mutual
def notated : Datum → String
  | absent => "None"
  | bool b => if b then "True" else "False"
  | int n => toString n
  | float x => Decimal.text x
  | text s => Text.quoted s
  | tuple items => tupleText (notatedItems items)
  | list items => "[" ++ commaList (notatedItems items) ++ "]"
  | dict entries => "\x7b" ++ commaList (notatedEntries entries) ++ "\x7d"

def notatedItems : List Datum → List String
  | [] => []
  | d :: ds => notated d :: notatedItems ds

def notatedEntries : List (String × Datum) → List String
  | [] => []
  | (k, d) :: es => (Text.quoted k ++ ": " ++ notated d) :: notatedEntries es
end

/-- A datum as it is shown by itself: a text without quotes, all else in its notation. -/
def shown : Datum → String
  | text s => s
  | d => notated d

def lookup? (key : String) : List (String × Datum) → Option Datum
  | [] => none
  | (k, d) :: es => if k = key then some d else lookup? key es

/-- Entries with a key set. A key keeps the place where it was first set. -/
def insert (key : String) (value : Datum) : List (String × Datum) → List (String × Datum)
  | [] => [(key, value)]
  | (k, d) :: es => if k = key then (k, value) :: es else (k, d) :: insert key value es

end Datum
end Reckoner
