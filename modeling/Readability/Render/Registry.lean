import Readability.Files.Disk
import Readability.Render.Csv
import Readability.Render.Html
import Readability.Render.Markdown
import Readability.Render.Template
import Readability.Render.Terminal
import Readability.Text.Lowercase

/-!
Templates by name: the built-in ones, also under their short names, and those in a directory of the
user's. A report is marked as rendered before its template sees it, unless its state does not allow
it, and gets its state back when the template fails.
-/

namespace Readability.Render

open Readability.Files (Disk)

/-- A way to turn a report into text. -/
structure Template where
  name : String
  /-- The ending of files written with it. -/
  extension : String
  render : Report → Except FatalError String

/-- A report that is being rendered. -/
def marked (report : Report) : Report :=
  if report.state.canAdvanceTo .rendered then { report with state := .rendered } else report

namespace Template

/-- A template that always has a text. -/
def total (name extension : String) (render : Report → String) : Template :=
  ⟨name, extension, fun report => .ok (render report)⟩

/-- Renders a report where it is: what the template gives, and the report as it is left. -/
def renderInPlace (t : Template) (report : Report) : Except FatalError String × Report :=
  let before := report.state
  let report := marked report
  match t.render report with
  | .ok text => (.ok text, report)
  | .error e => (.error e, { report with state := before })

end Template

/-- The built-in templates, in the order of their names. -/
def builtIns (styling : Styling) : List Template :=
  [.total "csv" "csv" Csv.render, .total "html" "html" Html.render,
    .total "json" "json" Report.toText, .total "markdown" "md" Markdown.render,
    .total "text" "txt" (Terminal.render styling)]

/-- Short names of built-in templates. -/
def aliases : List (String × String) :=
  [("md", "markdown"), ("txt", "text")]

namespace UserTemplate

/-- The template as one among others. -/
def toTemplate (t : UserTemplate) : Template :=
  .total t.name "txt" t.render

/-- Reads a template from a file. -/
def load (disk : Disk) (path : String) : Except FatalError UserTemplate :=
  match disk.readText path with
  | .error fault => .error (.template ("cannot read " ++ path ++ ": " ++ fault.message))
  | .ok source => parse ((Source.Path.stem? path).getD "custom") source

end UserTemplate

/-- Where templates are looked for. -/
structure Registry where
  styling : Styling
  disk : Disk
  /-- The directory of the user's templates. -/
  directory : Option String

namespace Registry

/-- The names of the user's templates. -/
def userNames (r : Registry) : List String :=
  match r.directory with
  | none => []
  | some directory =>
    match r.disk.list directory with
    | .error _ => []
    | .ok names => names.filterMap fun name =>
        match Source.Path.splitName name with
        | (stem, some extension) => if extension == templateExtension then some stem else none
        | _ => none

/-- The names of all templates, sorted. -/
def names (r : Registry) : List String :=
  (((builtIns r.styling).map (·.name) ++ r.userNames).eraseDups).mergeSort (fun a b => a ≤ b)

/-- The built-in template that goes by a name, written in small or capital letters. -/
def builtIn? (r : Registry) (name : String) : Option Template :=
  let small := Text.lowercase name
  let canonical := ((aliases.find? fun a => a.1 == small).map (·.2)).getD small
  (builtIns r.styling).find? fun t => t.name == canonical

/-- The template that goes by a name. -/
def lookup (r : Registry) (name : String) : Except FatalError Template :=
  match r.builtIn? name with
  | some template => .ok template
  | none =>
    let path := r.directory.map fun directory =>
      Source.Path.join directory (name ++ "." ++ templateExtension)
    match path.filter r.disk.isFile with
    | some path => (UserTemplate.load r.disk path).map UserTemplate.toTemplate
    | none =>
      .error (.template ("template '" ++ name ++ "' not found (available: "
        ++ ", ".intercalate r.names ++ ")"))

/-- Renders a report where it is, with the template of a name. Without such a template the report is
left alone. -/
def renderInPlace (r : Registry) (report : Report) (name : String) :
    Except FatalError String × Report :=
  match r.lookup name with
  | .error e => (.error e, report)
  | .ok template => template.renderInPlace report

/-- The text of a report, together with the report as it is left. -/
def render (r : Registry) (report : Report) (name : String) : Except FatalError (String × Report) :=
  match r.renderInPlace report name with
  | (.ok text, report) => .ok (text, report)
  | (.error e, _) => .error e

end Registry

end Readability.Render
