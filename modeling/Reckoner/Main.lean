import Reckoner.Clock
import Reckoner.Console
import Std.Time.DateTime.Timestamp

namespace Reckoner.Main

def path (setting default : String) : IO String := do
  let p := (← IO.getEnv setting).getD default
  let home := (← IO.getEnv "HOME").getD ""
  match p.toList with
  | '~' :: '/' :: rest => return home ++ "/" ++ String.ofList rest
  | _ => return p

def now : IO String := do
  let t ← Std.Time.Timestamp.now
  return Clock.text (Int.fdiv t.toNanosecondsSinceUnixEpoch.val 1000)

/-- The directory of a path, empty if the path has none. -/
def parent (p : String) : String :=
  String.intercalate "/" (Text.split (Char.ofNat 47) p).dropLast

def isThere (p : String) : IO Bool := do
  try
    let _ ← IO.FS.Handle.mk p .read
    return true
  catch _ => return false

def readStore (p : String) : IO History.Store := do
  try return .ofText (← IO.FS.readFile p)
  catch _ =>
    if ← isThere p then return .directory
    else if parent p = "" || (← isThere (parent p)) then return .missing
    else return .noDirectory

def readTyped (p : String) : IO (List String) := do
  try return History.fileLines (← IO.FS.readFile p)
  catch _ => return []

def makeParent (p : String) : IO Unit := do
  if parent p ≠ "" then IO.FS.createDirAll (parent p)

def write (p text : String) : IO Unit := do
  try IO.FS.writeFile p text
  catch _ => return ()

def save (p : String) (c : Console) : IO Unit :=
  match c.store.text? with
  | none => return ()
  | some text => write p text

partial def converse (p : String) (c : Console) : IO Console := do
  let out ← IO.getStdout
  out.putStr Console.prompt
  out.flush
  let line ← (← IO.getStdin).getLine
  if line.isEmpty then return c
  let r := c.answer (← now) line
  out.putStr r.output
  save p r.console
  if r.stop then return r.console else converse p r.console

def run (p : String) (c : Console) (args : List String) : IO (Console × UInt32) := do
  if args.isEmpty then
    IO.print Console.banner
    return (← converse p c, 0)
  else
    let r := c.once (← now) (String.intercalate " " args)
    IO.print r.output
    IO.eprint r.errors
    save p r.console
    return (r.console, if r.failed then 1 else 0)

end Reckoner.Main

def main (args : List String) : IO UInt32 := do
  let typed ← Reckoner.Main.path "COMPUTOR_HISTORY" "~/.computor_history"
  let results ← Reckoner.Main.path "COMPUTOR_HISTORY_RESULTS" "~/.computor_history_results"
  Reckoner.Main.makeParent typed
  let c := Reckoner.Console.start (← Reckoner.Main.readStore results)
    (← Reckoner.Main.readTyped typed)
  let (c, code) ← Reckoner.Main.run results c args
  try Reckoner.Main.makeParent results
  catch _ => pure ()
  Reckoner.Main.save results c.close
  Reckoner.Main.write typed (Reckoner.History.Store.linesText c.keptLines)
  return code
