import Readability.Command.Description
import Readability.Command.Run
import Readability.Data.Json.Parser

/-!
The program. Its words are the command line, and standard input describes what it finds around it. A
report for a file is written below the directory that the program is started in.
-/

namespace Readability.Command

/-- Where the working directory is. -/
def workPath : String := "/work"

/-- Where the settings of the user are. -/
def userPath : String := "/user/readscope"

/-- The path that a command writes its report to. -/
def Request.reportPath? : Request → Option String
  | .score r => r.output
  | .file r => r.output
  | .hints _ => none
  | .model _ => none

/-- Prints what a command leaves behind, writes its report, and tells the system how it ended. -/
def Outcome.deliver (o : Outcome) (reportPath : Option String) : IO UInt32 := do
  IO.print o.output
  IO.eprint o.remarks
  match o.fault, reportPath with
  | some fault, _ => IO.eprintln ("Error: " ++ fault.message)
  | none, some path =>
    if let .ok content := o.disk.read path then
      IO.FS.writeBinFile path content
  | none, none => pure ()
  return o.status.code.toUInt32

/-- Prints why there is no command. -/
def UsageFault.deliver (fault : UsageFault) : IO UInt32 := do
  if fault.isAnswer then
    IO.println fault.message
    return 0
  else
    IO.eprintln fault.message
    return 2

end Readability.Command

open Readability in
/-- Reads the command line and what is around it, and carries out the command. -/
def main (words : List String) : IO UInt32 := do
  match Data.Json.parse (← (← IO.getStdin).readToEnd) with
  | .error fault =>
    IO.eprintln ("Error: " ++ fault.message)
    return 1
  | .ok v =>
    let s := Command.Description.surroundings id Command.workPath Command.userPath v
    match Command.Request.parse s.modelVariable words with
    | .ok request => (request.run s).deliver request.reportPath?
    | .error fault => fault.deliver
