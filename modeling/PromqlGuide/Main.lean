import PromqlGuide.Cli.Run

/-!
The command line program. Everything that it decides is in `Cli.run`; here the file with the
settings is read, and text is written.
-/
namespace PromqlGuide

/-- Reads a file of the disk. -/
def readFile (path : String) : IO FileContents := do
  if Folder.isLegal path then
    try
      let data ← IO.FS.readBinFile path
      return .bytes (data.toList.map UInt8.toNat)
    catch e =>
      match e with
      | .noFileOrDirectory .. => return .missing
      | _ => return .unreadable
  else return .illegalName

/-- The message about a run that did not end well. -/
def Cli.Ending.message? : Cli.Ending → Option String
  | finished => none
  | refused fault => some fault.message
  | failed fault => some fault.message
  | unsettled fault => some fault.message

end PromqlGuide

open PromqlGuide in
/-- Runs the command line. -/
def main (args : List String) : IO UInt32 := do
  let contents ←
    match Cli.settingsPath? args with
    | none => pure .unreadable
    | some path => readFile path
  let run := Cli.run .usual contents args
  (← IO.getStdout).putStr run.output
  if let some message := run.ending.message? then
    IO.eprintln message
  return run.status.toUInt32
