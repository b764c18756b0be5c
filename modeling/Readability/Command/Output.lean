import Readability.Command.Settings
import Readability.Text.Escapes

/-!
How commands end: with a status, the text that they print, what they say beside it, and the disk as
they leave it. A report whose template has a fault is written as a document instead, so that its
scores are not lost.
-/

namespace Readability.Command

open Readability.Files (Disk)

/-- How a command ended. -/
inductive ExitStatus where
  | success
  | failed
  /-- It ended, but some units have no score or the run was cut short. -/
  | warnings
deriving Repr, DecidableEq

namespace ExitStatus

/-- The number that the system is told. -/
def code : ExitStatus → Nat
  | success => 0
  | failed => 1
  | warnings => 3

/-- The status that a report leads to. -/
def ofReport (report : Report) : ExitStatus :=
  if report.hasWarnings || report.isPartial then warnings else success

end ExitStatus

/-- What a command leaves behind. -/
structure Outcome where
  status : ExitStatus
  output : String
  /-- Said beside the output. -/
  remarks : String
  fault : Option CommandFault
  disk : Disk

namespace Outcome

/-- A command that printed a text. -/
def printed (disk : Disk) (status : ExitStatus) (output : String) : Outcome :=
  ⟨status, output, "", none, disk⟩

/-- A command that failed. -/
def failure (disk : Disk) (remarks : String) (fault : CommandFault) : Outcome :=
  ⟨.failed, "", remarks, some fault, disk⟩

end Outcome

/-- A report as text, the status that it leads to, and what is to be said about it. The second try
renders the report as the first one left it. -/
def renderOrRescue (registry : Render.Registry) (report : Report) (template : String) :
    Except CommandFault (String × ExitStatus × String) :=
  match registry.renderInPlace report template with
  | (.ok text, report) => .ok (text, .ofReport report, "")
  | (.error e, report) =>
    match e with
    | .template _ =>
      match (registry.renderInPlace report "json").1 with
      | .ok text => .ok (text, .failed, "Error: " ++ e.message ++ "\n")
      | .error e => .error (.fatal e)
    | _ => .error (.fatal e)

/-- Writes a report, to a file or to be printed. Styles are for terminals and not for files;
`withoutCodes` takes their codes out of a text. -/
def emitBy (withoutCodes : String → String) (s : Surroundings) (registry : Render.Registry)
    (report : Report) (template : String) (path : Option String) : Outcome :=
  match renderOrRescue registry report template with
  | .error fault => .failure s.disk "" fault
  | .ok (text, status, remarks) =>
    match path with
    | none => ⟨status, text, remarks, none, s.disk⟩
    | some path =>
      match s.disk.write path (withoutCodes text).toUTF8 (s.now.secondsSince .epoch) with
      | .error fault => .failure s.disk remarks (.unwritable path fault)
      | .ok disk => ⟨status, "", remarks ++ "Report written to " ++ path ++ "\n", none, disk⟩

/-- Writes a report, to a file or to be printed. -/
def emit (s : Surroundings) (registry : Render.Registry) (report : Report) (template : String)
    (path : Option String) : Outcome :=
  emitBy Text.withoutCodes s registry report template path

end Readability.Command
