import Readability.Data.Decoder
import Readability.Data.Json.Parser
import Readability.Data.Json.Printer
import Readability.Model.Basic

/-!
Models as documents, and the model that is used when no other is given.
-/

namespace Readability.Model

open Readability.Data

/-- Why a text is no model. -/
inductive DocumentFault where
  | notJson (fault : Json.Fault)
  | notModel (fault : DecodeFault)
  | flawed (flaw : Flaw)

namespace DocumentFault

/-- The fault in words. -/
def message : DocumentFault → String
  | notJson fault => fault.message
  | notModel fault => fault.message .json
  | flawed flaw => flaw.message

end DocumentFault

/-- Reads a link. -/
def Link.decode : Decoder Link :=
  .variant ([Link.logistic, .invertedLogistic, .linear].map fun link => (link.name, link))

/-- Reads a range. -/
def ScoreRange.decode : Decoder ScoreRange :=
  .record "struct ScoreRange"
    (.cons (.required "min" .float) <| .cons (.required "max" .float) .nil)
    fun (min, max, ()) => ⟨min, max⟩

/-- Reads bands. -/
def Bands.decode : Decoder Bands :=
  .record "struct Bands" (.cons (.required "low" .float) <| .cons (.required "high" .float) .nil)
    fun (low, high, ()) => ⟨low, high⟩

/-- Reads a weighted feature. -/
def FeatureWeight.decode : Decoder FeatureWeight :=
  .record "struct FeatureWeight"
    (.cons (.required "name" .text) <| .cons (.required "weight" .float)
      <| .cons (.withDefault "target" (.option .float) none) .nil)
    fun (name, weight, target, ()) => ⟨name, weight, target⟩

/-- Reads a model, without looking whether it makes sense. -/
def Model.decode : Decoder Model :=
  .record "struct Model"
    (.cons (.required "format" .text) <| .cons (.required "version" .word32)
      <| .cons (.required "schema" .text) <| .cons (.required "link" Link.decode)
      <| .cons (.required "intercept" .float)
      <| .cons (.withDefault "range" ScoreRange.decode ScoreRange.unit)
      <| .cons (.withDefault "bands" Bands.decode Bands.thirds)
      <| .cons (.required "features" (.list FeatureWeight.decode)) .nil)
    fun (format, version, schema, link, intercept, range, bands, features, ()) =>
      ⟨format, version, schema, link, intercept, range, bands, features, ""⟩

/-- Reads a model from a value that is already parsed. -/
def ofValue (v : Value) : Except DocumentFault Model := do
  let m ← (Model.decode .json v).mapError .notModel
  m.check.mapError .flawed
  return m

/-- Reads a model from its document. -/
def ofText (text : String) : Except DocumentFault Model := do
  let v ← (Json.read text).mapError .notJson
  ofValue v

/-- The model as a document value. -/
def toValue (m : Model) : Value :=
  .record [("format", .text m.format), ("version", .int m.version), ("schema", .text m.schema),
    ("link", .text m.link.name), ("intercept", .float m.intercept),
    ("range", .record [("min", .float m.range.min), ("max", .float m.range.max)]),
    ("bands", .record [("low", .float m.bands.low), ("high", .float m.bands.high)]),
    ("features", .list (m.features.map fun f =>
      .record ([("name", .text f.name), ("weight", .float f.weight)]
        ++ f.target.toList.map fun t => ("target", .float t))))]

namespace Info

/-- Model information as a document value. -/
def toValue (i : Info) : Value :=
  .record [("schema", .text i.schema), ("version", .int i.version), ("link", .text i.link),
    ("range_min", .float i.rangeMin), ("range_max", .float i.rangeMax), ("source", .text i.source)]

/-- Reads model information. -/
def decode : Decoder Info :=
  .record "struct ModelInfo"
    (.cons (.required "schema" .text) <| .cons (.required "version" .word32)
      <| .cons (.required "link" .text) <| .cons (.required "range_min" .float)
      <| .cons (.required "range_max" .float) <| .cons (.required "source" .text) .nil)
    fun (schema, version, link, rangeMin, rangeMax, source, ()) =>
      ⟨schema, version, link, rangeMin, rangeMax, source⟩

end Info

/-- The name that the built-in model is known by. -/
def builtInSource : String := "<embedded>"

/-- The built-in model: short plain lines, few names on each, little nesting, and comments. -/
def builtIn : Model where
  format := formatTag
  version := 1
  schema := "readscope.features.v1"
  link := .logistic
  intercept := 6.0
  range := .unit
  bands := .thirds
  features := [
    ⟨"line_length_avg", -0.04, some 30.0⟩, ⟨"line_length_max", -0.006, some 80.0⟩,
    ⟨"identifiers_avg", -0.15, some 2.0⟩, ⟨"identifiers_max", -0.05, some 6.0⟩,
    ⟨"identifier_length_avg", 0.05, some 8.0⟩, ⟨"identifier_length_max", -0.02, some 16.0⟩,
    ⟨"indentation_avg", -0.05, some 4.0⟩, ⟨"indentation_max", -0.02, some 12.0⟩,
    ⟨"keywords_avg", -0.1, none⟩, ⟨"keywords_max", -0.05, some 3.0⟩,
    ⟨"numbers_avg", -0.3, some 0.1⟩, ⟨"numbers_max", -0.05, none⟩,
    ⟨"parentheses_avg", -0.1, none⟩, ⟨"periods_avg", -0.12, some 0.5⟩,
    ⟨"commas_avg", -0.1, some 0.4⟩, ⟨"spaces_avg", -0.03, none⟩,
    ⟨"comparisons_avg", -0.3, none⟩, ⟨"assignments_avg", -0.2, none⟩,
    ⟨"branches_avg", -0.6, some 0.1⟩, ⟨"loops_avg", -0.8, some 0.05⟩,
    ⟨"nesting_depth_avg", -0.25, some 1.0⟩, ⟨"nesting_depth_max", -0.15, some 3.0⟩,
    ⟨"comment_density", 1.2, some 0.2⟩, ⟨"blank_line_ratio", 1.5, some 0.15⟩,
    ⟨"halstead_volume", -0.0001, none⟩, ⟨"code_lines_log", -0.1, none⟩]
  source := builtInSource

end Readability.Model

/-! Programs that open `Readability` may call the type by the name of its module. -/

namespace Readability.Model

export Readability (Model)

namespace Model

export Readability.Model (ofText)

end Model

end Readability.Model
