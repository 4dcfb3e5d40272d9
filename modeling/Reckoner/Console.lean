import Reckoner.History
import Reckoner.Session

namespace Reckoner

/-- The program at work. Everything is computed from the input, the clock and the stored history;
nothing here reads or writes. -/
structure Console where
  scope : Scope
  store : History.Store
  entries : List Datum
  /-- Lines typed so far, before this run and in it. -/
  typed : List String

namespace Console

def start (store : History.Store) (typed : List String) : Console :=
  ⟨.empty, store, History.load store, typed.filter (· ≠ "")⟩

def record (c : Console) (e : History.Entry) : Console :=
  { c with
    entries := c.entries ++ [e.toDatum]
    store := c.store.appended [e.toDatum.toJson] }

/-- At the end of a run all entries are stored again. -/
def close (c : Console) : Console :=
  { c with store := c.store.closed (c.entries.map Datum.toJson) }

def keptLines (c : Console) : List String :=
  c.typed.drop (c.typed.length - 1000)

/-- What a step has written, and whether it was the last. -/
structure Reply where
  console : Console
  output : String
  stop : Bool

def historyLines (c : Console) (shown : Nat → Datum → History.Shown) : String :=
  if c.entries.isEmpty then "No history available\n"
  else History.Store.linesText (History.listing shown 1 c.entries)

def clear (c : Console) : Console × String :=
  match c.store.cleared? with
  | some store => ({ c with store := store, entries := [] }, "History cleared\n")
  | none => (c, "Failed to clear history\n")

def history (c : Console) (command : History.Command) : Console × String :=
  match command with
  | .commands => (c, c.historyLines History.commandLine)
  | .results => (c, c.historyLines History.resultLines)
  | .clear => c.clear
  | .usage => (c, "Usage: history [results|clear]\n")

/-- Carry out a line of the calculator. Only a line with a result is recorded. -/
def calculate (c : Console) (now line : String) : Console × String :=
  let (r, scope) := Session.execute c.scope line
  let c := { c with scope := scope }
  match r with
  | .error e => (c, "Error: " ++ e.message ++ "\n")
  | .ok none => (c, "")
  | .ok (some t) => (c.record ⟨now, line, t⟩, t ++ "\n")

/-- Lines with a null character are not kept among the typed ones. -/
def remember (c : Console) (line : String) : Console :=
  if line.toList.contains (Char.ofNat 0) then c else { c with typed := c.typed ++ [line] }

def answer (c : Console) (now text : String) : Reply :=
  let line := Text.trim text
  if line = "" then ⟨c, "", false⟩
  else
    let c := c.remember line
    let low := Text.lower line
    if low = "exit" ∨ low = "quit" then ⟨c, "", true⟩
    else
      let (c, out) :=
        match History.command? line with
        | some command => c.history command
        | none => c.calculate now line
      ⟨c, out, false⟩

def banner : String :=
  "Computor v2 - Mathematical Expression Interpreter\nType 'exit' or 'quit' to leave\n\n"

def prompt : String := "> "

inductive Key where
  | line (text : String)
  | interrupt

/-- Answer what is typed until it ends, with everything that is written. The clock gives the time of
each line. -/
def converse (c : Console) (clock : Nat → String) (ask : String) : List Key → Console × String
  | [] => (c, ask)
  | .interrupt :: _ => (c, ask ++ "\n")
  | .line text :: keys =>
    let r := c.answer (clock 0) text
    if r.stop then (r.console, ask ++ r.output)
    else
      let (c, out) := converse r.console (fun n => clock (n + 1)) ask keys
      (c, ask ++ r.output ++ out)

structure Result where
  console : Console
  output : String
  errors : String
  failed : Bool

def interact (c : Console) (clock : Nat → String) (ask : String) (keys : List Key) : Result :=
  let (c, out) := c.converse clock ask keys
  ⟨c, banner ++ out, "", false⟩

/-- A run for one command. It is recorded even without a result. -/
def once (c : Console) (now command : String) : Result :=
  let (r, scope) := Session.execute c.scope command
  let c := { c with scope := scope }
  match r with
  | .error e => ⟨c, "", "Error: " ++ e.message ++ "\n", true⟩
  | .ok t =>
    ⟨c.record ⟨now, command, t.getD "None"⟩, (t.map (· ++ "\n")).getD "", "", false⟩

def run (c : Console) (now ask : String) (args : List String) (keys : List Key) : Result :=
  if args.isEmpty then c.interact (fun _ => now) ask keys
  else c.once now (String.intercalate " " args)

end Console
end Reckoner
