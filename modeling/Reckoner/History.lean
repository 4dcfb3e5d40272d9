import Reckoner.Datum.Json
import Reckoner.Text.Blank
import Reckoner.Text.Lines
import Reckoner.Text.Lower

namespace Reckoner.History

/-- The place where the history is stored, one entry to a line. It may be out of reach. -/
inductive Store where
  /-- A file with its lines, and what stands after the end of the last one. -/
  | file (lines : List String) (unfinished : String := "")
  /-- There is no file yet. -/
  | missing
  /-- There is no file, and no directory for it. -/
  | noDirectory
  /-- A directory stands in the place of the file. -/
  | directory

namespace Store

def lines? : Store → Option (List String)
  | file ls unfinished => some (if unfinished = "" then ls else ls ++ [unfinished])
  | _ => none

def linesText (lines : List String) : String :=
  String.join (lines.map (· ++ "\n"))

def text? : Store → Option String
  | file ls unfinished => some (linesText ls ++ unfinished)
  | _ => none

def ofText (text : String) : Store :=
  let parts := Text.split (Char.ofNat 10) text
  file parts.dropLast (parts.getLastD "")

/-- The store with more lines, unless it is out of reach. The first of them goes on where the file
ends. -/
def append? (new : List String) : Store → Option Store
  | file ls unfinished =>
    some (match new with
      | [] => file ls unfinished
      | l :: new => file (ls ++ (unfinished ++ l) :: new))
  | missing => some (file new)
  | noDirectory | directory => none

def appended (new : List String) (s : Store) : Store :=
  (s.append? new).getD s

def cleared? : Store → Option Store
  | file .. | missing => some (file [])
  | noDirectory | directory => none

/-- The store after the program's end: more lines are added, and a directory is made if need be. -/
def closed (new : List String) : Store → Store
  | noDirectory => file new
  | s => s.appended new

end Store

def fileLines (text : String) : List String :=
  let parts := Text.split (Char.ofNat 10) text
  if parts.getLast? = some "" then parts.dropLast else parts

def splitReturns (lines : List String) : List String :=
  lines.flatMap (fun l => Text.split (Char.ofNat 13) l)

/-- A line that cannot be read is left out. What is read need not be entries of this program. -/
def load (s : Store) : List Datum :=
  match s.lines? with
  | none => []
  | some ls => (splitReturns ls).filterMap (fun l => Datum.ofJson? (Text.trim l))

structure Entry where
  time : String
  command : String
  result : String

def Entry.toDatum (e : Entry) : Datum :=
  .dict [("time", .text e.time), ("cmd", .text e.command), ("result", .text e.result)]

/-- What is shown of an entry, or the kind of something that is no entry. -/
abbrev Shown := Except String String

def commandLine (n : Nat) (d : Datum) : Shown :=
  match d with
  | .dict es =>
    .ok (toString n ++ ": " ++ ((Datum.lookup? "cmd" es).getD .absent).shown)
  | d => .error d.kind

def resultLines (n : Nat) (d : Datum) : Shown :=
  match d with
  | .dict es =>
    let get (key : String) : String := ((Datum.lookup? key es).getD (.text "")).shown
    .ok (toString n ++ " [" ++ get "time" ++ "] > " ++ get "cmd" ++ "\n  => " ++ get "result")
  | d => .error d.kind

def strayEntry (kind : String) : String :=
  "Error: '" ++ kind ++ "' object has no attribute 'get'"

/-- The lines of a listing, which ends at the first thing that is no entry. -/
def listing (shown : Nat → Datum → Shown) : Nat → List Datum → List String
  | _, [] => []
  | n, d :: ds =>
    match shown n d with
    | .error kind => [strayEntry kind]
    | .ok line => line :: listing shown (n + 1) ds

inductive Command where
  | commands
  | results
  | clear
  | usage
  deriving DecidableEq

def command? (line : String) : Option Command :=
  let low := Text.lower line
  if low.startsWith "history" || low = "hist" then
    some (match Text.words line with
      | [_] => .commands
      | [_, word] =>
        let w := Text.lower word
        if w = "results" ∨ w = "all" then .results
        else if w = "clear" then .clear
        else .usage
      | _ => .usage)
  else none

end Reckoner.History
