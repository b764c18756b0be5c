import Readability.Command.Arguments

/-!
The commands: what each of them is given, and how a command line names them.
-/

namespace Readability.Command

open Readability.History (WalkOrder)
open Readability.Run (Granularity)
open Readability.Source (LineRange)

/-- What is given in place of settings. -/
structure Flags where
  template : Option String
  order : Option WalkOrder
  granularity : Option Granularity
  workers : Option Nat
  maxRevisions : Option Nat
  model : Option String

/-- Rate the history of a repository. -/
structure ScoreRequest where
  repository : String
  lower : Option String
  upper : Option String
  allFiles : Bool
  /-- Seconds after which the run is stopped. -/
  timeLimit : Option Nat
  output : Option String
  flags : Flags

/-- Rate files as they are. -/
structure FileRequest where
  paths : List String
  lines : Option LineRange
  output : Option String
  flags : Flags

/-- Tell how the functions of a file could be made to read better. -/
structure HintsRequest where
  path : String
  /-- How many hints are given for each function. -/
  top : Nat
  flags : Flags

/-- Describe the model that is in use, or check one. -/
structure ModelRequest where
  check : Option String
  flags : Flags

/-- A command. -/
inductive Request where
  | score (r : ScoreRequest)
  | file (r : FileRequest)
  | hints (r : HintsRequest)
  | model (r : ModelRequest)

/-- What the program is for. -/
def about : String :=
  "Score the readability of source code, one file, one function or a whole git history at a time"

/-- The levels of detail in which the program may tell of its work. -/
def logLevels : List String :=
  ["error", "warn", "info", "debug", "trace"]

namespace Forms

/-- An option with a value. -/
def valued (long : String) (short : Option Char) (name : String)
    (read : String → Except ValueFault Given) :
    OptionForm :=
  ⟨long, short, some (name, read)⟩

/-- Asks for help. -/
def help : OptionForm := ⟨"help", some 'h', none⟩

/-- Asks for the version. -/
def version : OptionForm := ⟨"version", some 'V', none⟩

/-- Options of all commands. -/
def everywhere : List OptionForm :=
  [valued "log-level" none "LOG_LEVEL" (oneOf logLevels),
    valued "workers" none "WORKERS" workerCount, help]

/-- The template. -/
def template : OptionForm := valued "template" (some 't') "TEMPLATE" anyText

/-- The granularity. -/
def granularity : OptionForm :=
  valued "granularity" (some 'g') "GRANULARITY" (readBy Granularity.parse .granularity)

/-- The model. -/
def model : OptionForm := valued "model" none "MODEL" pathText

/-- The file that the report is written to. -/
def output : OptionForm := valued "output" (some 'o') "OUTPUT" pathText

/-- Reads lines. -/
def readLines (s : String) : Except String LineRange :=
  (LineRange.parse s).mapError Source.LineRangeFault.message

/-- The command that rates a history. -/
def score : CommandForm :=
  ⟨"score", "Score source files across the git history of a repository",
    [valued "from" none "FROM" anyText, valued "to" none "TO" anyText, template,
      valued "order" none "ORDER" (readBy WalkOrder.parse .order), granularity,
      ⟨"all-files", none, none⟩,
      valued "max-revisions" none "MAX_REVISIONS" anyCount,
      valued "time-limit" none "SECS" anyCount, model, output] ++ everywhere,
    some ⟨"[REPO]", false, false⟩, []⟩

/-- The command that rates files. -/
def file : CommandForm :=
  ⟨"file", "Score working-tree files or directories",
    [valued "lines" none "A-B" (readBy readLines .lines), template, granularity, model, output]
      ++ everywhere,
    some ⟨"<PATHS>...", true, true⟩, []⟩

/-- The command that gives hints. -/
def hints : CommandForm :=
  ⟨"hints", "Print ranked readability improvements for each function of a file",
    [valued "top" none "TOP" anyCount, model] ++ everywhere, some ⟨"<FILE>", false, true⟩, []⟩

/-- The command that shows models. -/
def showModel : CommandForm :=
  ⟨"model", "Show the active model, or validate a model file",
    [valued "check" none "PATH" pathText, model] ++ everywhere, none, []⟩

/-- All commands. -/
def commands : List CommandForm := [score, file, hints, showModel]

/-- The command line as a whole. -/
def root : CommandForm :=
  ⟨programName, about, everywhere ++ [version], none, commands.map CommandForm.name ++ ["help"]⟩

end Forms

namespace Values

/-- The values that take the place of settings. -/
def flags (v : Values) : Flags where
  template := v.text? "template"
  order := v.order? "order"
  granularity := v.granularity? "granularity"
  workers := v.count? "workers"
  maxRevisions := v.count? "max-revisions"
  model := v.text? "model"

end Values

/-- The command of a name, given some values. -/
def Request.ofValues (name : String) (v : Values) : Request :=
  let first := v.arguments.headD "."
  if name == "score" then
    .score ⟨first, v.text? "from", v.text? "to", v.has "all-files", v.count? "time-limit",
      v.text? "output", v.flags⟩
  else if name == "file" then .file ⟨v.arguments, v.lines? "lines", v.text? "output", v.flags⟩
  else if name == "hints" then .hints ⟨first, (v.count? "top").getD 3, v.flags⟩
  else .model ⟨v.text? "check", v.flags⟩

namespace CommandForm

/-- A model named in the surroundings stands in for one that is not named on the command line. -/
def withModel (modelVariable : Option String) (p : Progress) : Except UsageFault Progress :=
  match modelVariable with
  | none => .ok p
  | some path =>
    if p.given.any fun g => g.1 == "model" then .ok p else p.take (.option Forms.model) [path]

/-- Reads the words behind the name of a command. -/
def values (form : CommandForm) (modelVariable : Option String) (words : List String) :
    Except UsageFault Values := do
  let (p, _) ← Progress.start.words form words
  let p ← withModel modelVariable (← p.settle)
  let v : Values := ⟨p.given⟩
  if (form.positional.any fun slot => slot.isRequired) && v.arguments.isEmpty then
    throw .requiredMissing
  return v

end CommandForm

/-- What is told to someone who asks for help on a command. -/
def helpFault (words : List String) : UsageFault :=
  match words with
  | [] => .helpWanted about
  | name :: rest =>
    match Forms.commands.find? fun form => form.name == name with
    | some form =>
      match rest with
      | [] => .helpWanted form.about
      | other :: _ => .unknownCommand other
    | none =>
      if name == "help" then .helpWanted "Print this message or the help of the given subcommand(s)"
      else .unknownCommand name

/-- Reads a command line. The words behind a command's name are read before what still waits in
front of it. -/
def Request.parse (modelVariable : Option String) (words : List String) :
    Except UsageFault Request := do
  match ← Progress.start.words Forms.root words with
  | (p, none) =>
    let p ← p.settle
    if p.given.isEmpty then throw (.nothingGiven about) else throw .noCommand
  | (p, some (name, rest)) =>
    match Forms.commands.find? fun form => form.name == name with
    | none => throw (helpFault rest)
    | some form =>
      let v ← form.values modelVariable rest
      let _ ← p.settle
      return .ofValues name v

end Readability.Command
