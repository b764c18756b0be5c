import Readability.Command.Basic
import Readability.Command.Fault
import Readability.Config.Project
import Readability.Config.User
import Readability.Git.Discovery
import Readability.Model.Sources
import Readability.Render.Registry

/-!
What a command finds around it, and the settings that follow: what is given on the command line goes
before the settings of the project, and those before the settings of the user.
-/

namespace Readability.Command

open Readability.Config (Project User)
open Readability.Files (Disk)
open Readability.History (WalkOrder)
open Readability.Run (Granularity)

/-- What a command finds around it. -/
structure Surroundings where
  disk : Disk
  /-- The repositories that there are. -/
  sites : List Git.Site
  /-- The directory of the user's settings. -/
  userDir : String
  /-- The model that is named in the surroundings. -/
  modelVariable : Option String
  styling : Render.Styling
  parser : Source.Parser
  /-- The id of the next run. -/
  runId : String
  now : Time.Instant

namespace Surroundings

/-- The working directory as a path. -/
def workPath (s : Surroundings) : String :=
  "/" ++ "/".intercalate s.disk.workDir

end Surroundings

/-- The settings of a command. -/
structure Settings where
  template : String
  templateDir : Option String
  order : WalkOrder
  granularity : Granularity
  maxRevisions : Option Nat
  sources : Model.Sources

/-- The template that is used when none is named. -/
def defaultTemplate : String := "text"

namespace Settings

/-- Settings from what is given, those of the project at a root, and those of the user. -/
def merge (flags : Flags) (project : Project) (user : User) (userDir root : String) : Settings where
  template := (flags.template.or (project.template.or user.template)).getD defaultTemplate
  templateDir := project.templateDirPath.or user.templateDir
  order := (flags.order.or project.order).getD .newestFirst
  granularity := (flags.granularity.or project.granularity).getD .file
  maxRevisions := flags.maxRevisions.or project.maxRevisions
  sources := ⟨flags.model, project.modelPath, some root, user.model, some userDir⟩

/-- The settings for a root, and those of its project. -/
def load (s : Surroundings) (flags : Flags) (root : String) :
    Except FatalError (Settings × Project) := do
  let project ← Project.load s.disk root
  let user := User.load s.disk (Source.Path.join s.userDir User.fileName)
  return (merge flags project user s.userDir root, project)

/-- Where templates are looked for. -/
def registry (settings : Settings) (s : Surroundings) : Render.Registry :=
  ⟨s.styling, s.disk, settings.templateDir⟩

end Settings

end Readability.Command
