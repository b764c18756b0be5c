import Readability.FatalError
import Readability.Files.Disk
import Readability.Model.Document

/-!
Where a model may come from. A path that someone named has to lead to a model; a directory that
might hold one is only looked into. Without any of them the built-in model is used.
-/

namespace Readability.Model

open Readability.Files (Disk)

/-- The name under which models lie in directories. -/
def fileName : String := "readability_model"

/-- The places a model may come from, the most important one first. -/
structure Sources where
  /-- Named for this run. -/
  explicit : Option String
  /-- Named in the settings of the project. -/
  project : Option String
  /-- The root of the repository, which may hold a model. -/
  repository : Option String
  /-- Named in the settings of the user. -/
  user : Option String
  /-- The directory of the user's settings, which may hold a model. -/
  userDir : Option String
deriving Repr, DecidableEq, Inhabited

/-- Reads the model in a file. -/
def load (disk : Disk) (path : String) : Except FatalError Model := do
  let text ← (disk.readText path).mapError fun fault => .modelLoad path fault.message
  let m ← (Model.ofText text).mapError fun fault => .modelLoad path fault.message
  return { m with source := path }

/-- The model file in a directory. -/
def probe (disk : Disk) (directory : Option String) : Option String :=
  (directory.map fun directory => Source.Path.join directory fileName).filter disk.isFile

namespace Sources

/-- The file that holds the model, if not the built-in one is used. -/
def choose (s : Sources) (disk : Disk) : Option String :=
  s.explicit.or (s.project.or ((probe disk s.repository).or (s.user.or (probe disk s.userDir))))

/-- The model. -/
def resolve (s : Sources) (disk : Disk) : Except FatalError Model :=
  match s.choose disk with
  | some path => load disk path
  | none => .ok builtIn

end Sources

end Readability.Model
