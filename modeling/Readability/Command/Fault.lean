import Readability.Files.Disk
import Readability.Run.Pipeline
import Readability.Source.LineRange

/-!
Why commands fail. The message tells the circumstances first and then the cause, each behind a
colon.
-/

namespace Readability.Command

open Readability.Files (FileFault)
open Readability.Run (RunFailure)
open Readability.Source (PastEnd UnitError)

/-- A fault and its own cause, where it has one that is told apart. -/
def fatalText (e : FatalError) : String :=
  match e with
  | .io reason => e.message ++ ": " ++ reason
  | _ => e.message

/-- Why a command failed. -/
inductive CommandFault where
  | fatal (e : FatalError)
  /-- The settings for a directory make no sense. -/
  | settings (directory : String) (e : FatalError)
  | run (f : RunFailure)
  | missingPath (path : String)
  | nothingToScore
  | linesOfSeveral
  | lines (path : String) (fault : PastEnd)
  | unreadable (path : String) (fault : FileFault)
  | unanalyzed (path : String) (e : UnitError)
  | unscored (e : UnitError)
  /-- The model weighs other features than are measured. -/
  | modelMisfit (e : FatalError)
  | unwritable (path : String) (fault : FileFault)

namespace CommandFault

/-- The fault in words. -/
def message : CommandFault → String
  | fatal e => fatalText e
  | settings directory e => "invalid configuration in " ++ directory ++ ": " ++ fatalText e
  | run f => "scoring failed: " ++ f.message ++ ": " ++ fatalText f.error
  | missingPath path => path ++ " does not exist"
  | nothingToScore => "no supported source files found"
  | linesOfSeveral => "--lines needs exactly one file"
  | lines path fault => "cannot select lines of " ++ path ++ ": " ++ fault.message
  | unreadable path fault => "failed to read " ++ path ++ ": " ++ fault.message
  | unanalyzed path e => "cannot analyze " ++ path ++ ": " ++ e.message
  | unscored e => e.message
  | modelMisfit e => "model does not match this version of readscope: " ++ fatalText e
  | unwritable path fault => "failed to write report to " ++ path ++ ": " ++ fault.message

end CommandFault

end Readability.Command
