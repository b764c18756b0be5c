import Readability.Command.Worktree
import Readability.Feature.Measure
import Readability.Model.Hint
import Readability.Render.Number

/-!
Hints for the functions of a file, or for the file as a whole when it has none.
-/

namespace Readability.Command

open Readability.Model (Hint)
open Readability.Source (SourceUnit UnitError)

/-- What hints are given for. -/
structure Target where
  title : String
  features : Feature.Vector

/-- The functions of a unit, or the unit. -/
def targetsOf (parser : Source.Parser) (unit : SourceUnit) : Except UnitError (List Target) := do
  let scopes ← Feature.extractScopes parser unit
  if scopes.isEmpty then return [⟨unit.id.path, ← Feature.extract parser unit⟩]
  return scopes.map fun scope =>
    ⟨scope.span.name ++ " (L" ++ toString scope.span.startLine ++ "-"
        ++ toString scope.span.endLine ++ ")",
      scope.features⟩

/-- A hint as a line. -/
def hintLine (styling : Render.Styling) (hint : Hint) : String :=
  "    " ++ toString hint.rank ++ ". " ++ hint.advice ++ "  "
    ++ styling.paint [.green] ("+" ++ Render.score hint.gain) ++ "\n"

/-- What is said of a target. -/
def describeTarget (styling : Render.Styling) (model : Model) (top : Nat) (target : Target) :
    Except UnitError String := do
  let score ← model.score target.features
  let hints ← model.improvements target.features
  let heading := styling.paint [.bold] (Render.score score) ++ "  " ++ target.title ++ " "
    ++ styling.paint [.dim] ("[" ++ (model.band score).name ++ "]") ++ "\n"
  return heading ++ (if hints.isEmpty then "    no improvements found\n"
    else String.join ((hints.take top).map (hintLine styling)))

namespace HintsRequest

/-- The text that is printed. -/
def text (r : HintsRequest) (s : Surroundings) : Except CommandFault String := do
  let (settings, _) ← (Settings.load s r.flags s.workPath).mapError .fatal
  let model ← (settings.sources.resolve s.disk).mapError .fatal
  if let some gap := model.schemaGap? Feature.schema Feature.names then
    throw (.fatal (.modelLoad model.source gap))
  let content ← (s.disk.read r.path).mapError (.unreadable r.path)
  let unit : SourceUnit := ⟨.file r.path worktree, content⟩
  let targets ← (targetsOf s.parser unit).mapError (.unanalyzed r.path)
  let parts ← targets.mapM fun target =>
    (describeTarget s.styling model r.top target).mapError CommandFault.unscored
  return String.join parts

/-- Prints hints. -/
def run (r : HintsRequest) (s : Surroundings) : Outcome :=
  match r.text s with
  | .ok text => .printed s.disk .success text
  | .error fault => .failure s.disk "" fault

end HintsRequest

end Readability.Command
