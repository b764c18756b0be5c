import Readability.Data.Decoder
import Readability.Data.Toml.Parser
import Readability.Files.Disk

/-!
The settings of a user, kept in the user's own directory. A file that is missing or makes no sense
counts as one without settings.
-/

namespace Readability.Config

open Readability.Data
open Readability.Files (Disk)

/-- The settings of a user. -/
structure User where
  model : Option String
  templateDir : Option String
  template : Option String
deriving Repr, DecidableEq, Inhabited

namespace User

/-- No settings. -/
def none : User := ⟨.none, .none, .none⟩

/-- The name of the file. -/
def fileName : String := "config.toml"

/-- Reads settings. -/
def decode : Decoder User :=
  .record "struct UserConfig"
    (.cons (.optional "model" .path) <| .cons (.optional "template_dir" .path)
      <| .cons (.optional "template" .text) .nil)
    fun (model, templateDir, template, ()) => ⟨model, templateDir, template⟩

/-- Reads settings from the text of a file. -/
def ofText? (text : String) : Option User :=
  match Toml.parse text with
  | .ok v => (decode .toml v).toOption
  | .error _ => .none

/-- The settings kept in a file. -/
def load (disk : Disk) (path : String) : User :=
  match disk.readText path with
  | .ok text => (ofText? text).getD none
  | .error _ => none

end User

end Readability.Config
