import Readability.Command.Output
import Readability.Decimal.Fixed
import Readability.Decimal.Plain
import Readability.Feature.Layout

/-!
The model that is in use, described, or a model file, checked.
-/

namespace Readability.Command

open Readability.Model (FeatureWeight)

/-- A text with blanks behind it up to a width. -/
def paddedEnd (width : Nat) (text : String) : String :=
  text ++ String.ofList (List.replicate (width - text.length) ' ')

/-- A text with blanks in front of it up to a width. -/
def paddedStart (width : Nat) (text : String) : String :=
  String.ofList (List.replicate (width - text.length) ' ') ++ text

/-- A feature, its weight and its target as a line. -/
def featureLine (f : FeatureWeight) : String :=
  "  " ++ paddedEnd 24 f.name ++ " " ++ paddedStart 9 (Decimal.fixed 4 f.weight) ++ "  "
    ++ (match f.target with
      | some target => "target " ++ Decimal.plain target
      | none => "")
    ++ "\n"

/-- A model in words. -/
def describeModel (styling : Render.Styling) (m : Model) : String :=
  styling.paint [.bold] "Model" ++ "\n"
    ++ "  source:    " ++ m.source ++ "\n"
    ++ "  format:    " ++ m.format ++ " v" ++ toString m.version ++ "\n"
    ++ "  schema:    " ++ m.schema ++ "\n"
    ++ "  link:      " ++ m.link.name ++ "\n"
    ++ "  intercept: " ++ Decimal.plain m.intercept ++ "\n"
    ++ "  range:     " ++ Decimal.plain m.range.min ++ " .. " ++ Decimal.plain m.range.max ++ "\n"
    ++ "  bands:     low < " ++ Decimal.plain m.bands.low ++ "  high > "
      ++ Decimal.plain m.bands.high ++ "\n"
    ++ "\n" ++ styling.paint [.bold] "Features" ++ "\n"
    ++ String.join (m.features.map featureLine)

/-- What is said of a model file that is in order. -/
def approveModel (styling : Render.Styling) (m : Model) : String :=
  styling.paint [.green, .bold] "OK" ++ " " ++ m.source ++ " (" ++ toString m.features.length
    ++ " features, schema " ++ m.schema ++ ")\n"

namespace ModelRequest

/-- The model that is asked for. -/
def model (r : ModelRequest) (s : Surroundings) : Except FatalError Model :=
  match r.check with
  | some path => Model.load s.disk path
  | none => do
    let (settings, _) ← Settings.load s r.flags s.workPath
    settings.sources.resolve s.disk

/-- The text that is printed. -/
def text (r : ModelRequest) (s : Surroundings) : Except CommandFault String := do
  let m ← (r.model s).mapError CommandFault.fatal
  if let some gap := m.schemaGap? Feature.schema Feature.names then
    throw (.modelMisfit (.modelLoad m.source gap))
  return if r.check.isSome then approveModel s.styling m else describeModel s.styling m

/-- Prints what there is to say of the model. -/
def run (r : ModelRequest) (s : Surroundings) : Outcome :=
  match r.text s with
  | .ok text => .printed s.disk .success text
  | .error fault => .failure s.disk "" fault

end ModelRequest

end Readability.Command
