/-!
Faults of a command line, each told in one line.
-/

namespace Readability.Command

/-- The name that the program is called by. -/
def programName : String := "readscope"

/-- The program's version. -/
def programVersion : String := "0.1.0"

/-- Why a command line gives no command. Options and arguments are named as they are written in help
texts. -/
inductive UsageFault where
  /-- Nothing is given; the program says what it is for. -/
  | nothingGiven (about : String)
  /-- Help is asked for. -/
  | helpWanted (about : String)
  /-- The version is asked for. -/
  | versionWanted
  /-- There are options, and no command. -/
  | noCommand
  | unknownCommand (name : String)
  | unexpected (argument : String)
  /-- A value is due and there is none. -/
  | noValue (argument : String)
  /-- The value is none of the few that there are. -/
  | notAmong (value argument : String)
  | badValue (value argument reason : String)
  /-- A value is given to a flag. -/
  | valueForFlag (value flag : String)
  | repeated (argument : String)
  | requiredMissing
deriving Repr, DecidableEq

namespace UsageFault

/-- The fault in words, without the mark of an error. -/
def reason : UsageFault → String
  | nothingGiven about => about
  | helpWanted about => about
  | versionWanted => programName ++ " " ++ programVersion
  | noCommand => "'" ++ programName ++ "' requires a subcommand but one was not provided"
  | unknownCommand name => "unrecognized subcommand '" ++ name ++ "'"
  | unexpected argument => "unexpected argument '" ++ argument ++ "' found"
  | noValue argument => "a value is required for '" ++ argument ++ "' but none was supplied"
  | notAmong value argument => "invalid value '" ++ value ++ "' for '" ++ argument ++ "'"
  | badValue value argument reason =>
    "invalid value '" ++ value ++ "' for '" ++ argument ++ "': " ++ reason
  | valueForFlag value flag =>
    "unexpected value '" ++ value ++ "' for '" ++ flag ++ "' found; no more were expected"
  | repeated argument => "the argument '" ++ argument ++ "' cannot be used multiple times"
  | requiredMissing => "the following required arguments were not provided:"

/-- Whether the user asked for a text rather than erred. -/
def isAnswer : UsageFault → Bool
  | nothingGiven _ => true
  | helpWanted _ => true
  | versionWanted => true
  | _ => false

/-- The first line of what the user is told. -/
def message (fault : UsageFault) : String :=
  let text := if fault.isAnswer then fault.reason else "error: " ++ fault.reason
  String.ofList (text.toList.takeWhile (· != '\n'))

end UsageFault

end Readability.Command
