import Readability.Config.Glob
import Readability.Data.Decoder
import Readability.Data.Json.Parser
import Readability.Data.Toml.Parser
import Readability.FatalError
import Readability.Files.Disk
import Readability.History.Basic
import Readability.Run.Granularity

/-!
The settings of a project, kept in a file at its root. A project without such a file has none; a
file that cannot be read or makes no sense is an error.
-/

namespace Readability.Config

open Readability.Data
open Readability.Files (Disk FileFault)
open Readability.History (WalkOrder)
open Readability.Run (Granularity)

/-- Code that others wrote or that was generated: not rated unless asked for. -/
def defaultExcludes : List String :=
  ["**/vendor/**", "**/node_modules/**", "**/third_party/**", "**/dist/**", "**/*.min.js"]

/-- The files that settings are kept in, the first one found counts. -/
def projectFiles : List String :=
  ["readscope.toml", ".readscoperc.json"]

/-- Which paths are left out. -/
structure Exclude where
  paths : List String
  /-- The default patterns do not count. -/
  skipDefaults : Bool
deriving Repr, DecidableEq, Inhabited

namespace Exclude

/-- Nothing beyond the defaults. -/
def standard : Exclude := ⟨[], false⟩

/-- Puts a pattern behind others, unless it is among them. -/
def addPattern (patterns : List String) (pattern : String) : List String :=
  if patterns.contains pattern then patterns else patterns ++ [pattern]

/-- All patterns that count. -/
def patterns (e : Exclude) : List String :=
  e.paths.foldl addPattern (if e.skipDefaults then [] else defaultExcludes)

/-- Whether a path is left out. -/
def covers (e : Exclude) (path : String) : Bool :=
  e.patterns.any fun pattern => globMatch pattern path

/-- Reads what is left out. -/
def decode : Decoder Exclude :=
  .record "struct ExcludeConfig"
    (.cons (.withDefault "paths" (.list .text) []) <|
      .cons (.withDefault "skip_defaults" .bool false) .nil)
    fun (paths, skipDefaults, ()) => ⟨paths, skipDefaults⟩

end Exclude

/-- The settings of a project. -/
structure Project where
  model : Option String
  template : Option String
  templateDir : Option String
  granularity : Option Granularity
  order : Option WalkOrder
  workers : Option Nat
  maxRevisions : Option Nat
  exclude : Exclude
  /-- The directory the settings are for. -/
  root : String
deriving Repr, DecidableEq

/-- What a settings file says, as far as its form is right. -/
structure ProjectDocument where
  model : Option String
  template : Option String
  templateDir : Option String
  granularity : Option String
  order : Option String
  workers : Option Nat
  maxRevisions : Option Nat
  exclude : Exclude

/-- Why there are no settings to be had from a file. -/
inductive ProjectFault where
  | unreadable (fault : FileFault)
  /-- The file is no document of its kind. -/
  | malformed (reason : String)
  /-- The document is not one of settings. -/
  | wrongForm (form : Form) (fault : DecodeFault)
  /-- A setting makes no sense. -/
  | invalid (reason : String)

namespace ProjectFault

/-- The fault of a file as one that ends a run. -/
def toFatal (path : String) : ProjectFault → FatalError
  | unreadable fault => .io fault.message
  | malformed reason => .config (path ++ ": " ++ reason)
  | wrongForm form fault => .config (path ++ ": " ++ fault.message form)
  | invalid reason => .config (path ++ ": " ++ reason)

end ProjectFault

namespace ProjectDocument

/-- Reads settings. -/
def decode : Decoder ProjectDocument :=
  .strictRecord "struct ProjectConfig"
    (.cons (.withDefault "model" (.option .path) none)
      <| .cons (.withDefault "template" (.option .text) none)
      <| .cons (.withDefault "template_dir" (.option .path) none)
      <| .cons (.withDefault "granularity" (.option .text) none)
      <| .cons (.withDefault "order" (.option .text) none)
      <| .cons (.withDefault "workers" (.option .count) none)
      <| .cons (.withDefault "max_revisions" (.option .count) none)
      <| .cons (.withDefault "exclude" Exclude.decode .standard) .nil)
    fun (model, template, templateDir, granularity, order, workers, maxRevisions, exclude, ()) =>
      ⟨model, template, templateDir, granularity, order, workers, maxRevisions, exclude⟩

/-- Reads settings from a document of a kind. -/
def ofValue (form : Form) (v : Value) : Except ProjectFault ProjectDocument :=
  match decode form v, v.refusal? with
  | .ok d, _ => .ok d
  | .error fault, none => .error (.wrongForm form fault)
  | .error _, some reason => .error (.malformed reason.message)

/-- Reads settings from the text of a file; the file's name tells the kind of document. -/
def ofText (name text : String) : Except ProjectFault ProjectDocument :=
  if name.endsWith ".json" then
    match Json.read text with
    | .ok v => ofValue .json v
    | .error fault => .error (.malformed fault.message)
  else
    match Toml.parse text with
    | .ok v => ofValue .toml v
    | .error fault => .error (.malformed fault.message)

/-- Checks a setting that names one of a few things. -/
def readName (parse : String → Except String α) : Option String → Except ProjectFault (Option α)
  | none => .ok none
  | some text =>
    match parse text with
    | .ok a => .ok (some a)
    | .error reason => .error (.invalid reason)

/-- The settings of a project, once they are found to make sense. -/
def toProject (d : ProjectDocument) (root : String) : Except ProjectFault Project := do
  let granularity ← readName Granularity.parse d.granularity
  let order ← readName WalkOrder.parse d.order
  if d.workers == some 0 then throw (.invalid "workers must be at least 1")
  return ⟨d.model, d.template, d.templateDir, granularity, order, d.workers, d.maxRevisions,
    d.exclude, root⟩

end ProjectDocument

namespace Project

/-- No settings. -/
def none (root : String) : Project :=
  ⟨.none, .none, .none, .none, .none, .none, .none, .standard, root⟩

/-- Reads the settings kept in a file. -/
def ofFile (disk : Disk) (root name : String) : Except ProjectFault Project := do
  let text ← (disk.readText (Source.Path.join root name)).mapError .unreadable
  let document ← ProjectDocument.ofText name text
  document.toProject root

/-- The file that the settings of a project are kept in. -/
def file? (disk : Disk) (root : String) : Option String :=
  projectFiles.find? fun name => disk.isFile (Source.Path.join root name)

/-- The settings of the project at a root. -/
def load (disk : Disk) (root : String) : Except FatalError Project :=
  match file? disk root with
  | .none => .ok (none root)
  | some name => (ofFile disk root name).mapError (·.toFatal (Source.Path.join root name))

/-- The file of the project's model. -/
def modelPath (p : Project) : Option String :=
  p.model.map (Source.Path.join p.root)

/-- The directory of the project's templates. -/
def templateDirPath (p : Project) : Option String :=
  p.templateDir.map (Source.Path.join p.root)

/-- Whether a path of the project is rated. -/
def keeps (p : Project) (path : String) : Bool :=
  !p.exclude.covers path

end Project

end Readability.Config
