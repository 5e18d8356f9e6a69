import Statechart.Command

/- The command line: reads the files that a command needs, and carries out its result. -/

namespace Statechart

def readText (path : String) : IO (Option String) := do
  try
    return some (← IO.FS.readFile path)
  catch _ => return none

def readEnvironment : IO Environment :=
  Settings.environmentNames.filterMapM fun name => do
    return (← IO.getEnv name).map fun value => (name, value)

def carryOut (r : CommandResult) : IO Unit := do
  match r.directory with
  | some dir => if dir ≠ "" then IO.FS.createDirAll dir
  | none => pure ()
  match r.written with
  | some (path, content) => IO.FS.writeFile path content
  | none => pure ()
  IO.print r.output

end Statechart

open Statechart

def main (words : List String) : IO UInt32 := do
  let env ← readEnvironment
  let files ← (Command.reads env words).mapM fun path => do
    return (path, ← readText path)
  let r := Command.outcome (fun path => (files.lookup path).join) env words
  match r.complaint with
  | some message => IO.eprintln ("Error: " ++ message)
  | none => pure ()
  try
    carryOut r
    return r.code.toUInt32
  catch e =>
    IO.eprintln ("Error: " ++ toString e)
    return 1
