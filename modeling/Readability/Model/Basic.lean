import Readability.Decimal.Plain
import Readability.Feature.Vector
import Readability.Number.Double
import Readability.Source.UnitError
import Readability.Text.Blank

/-!
Models of readability: a weighted sum of features, mapped onto a range of scores. `Model.check` says
which models make sense, `Model.score` gives the score of a vector with the model's features.
-/

namespace Readability.Model

/-- How the weighted sum becomes a score. -/
inductive Link where
  /-- Along the logistic curve from the low end of the range to the high one. -/
  | logistic
  /-- Along the logistic curve from the high end of the range to the low one. -/
  | invertedLogistic
  /-- The sum itself, within the range. -/
  | linear
deriving Repr, DecidableEq, Inhabited

namespace Link

/-- The link's name. -/
def name : Link → String
  | logistic => "logistic"
  | invertedLogistic => "inverted_logistic"
  | linear => "linear"

end Link

/-- The least and the greatest score. -/
structure ScoreRange where
  min : Float
  max : Float
deriving BEq, Inhabited

/-- The range of a model that gives none. -/
def ScoreRange.unit : ScoreRange := ⟨0, 1⟩

/-- Shares of the range up to which a score is low and from which it is high. -/
structure Bands where
  low : Float
  high : Float
deriving BEq, Inhabited

/-- The bands of a model that gives none. -/
def Bands.thirds : Bands := ⟨0.33, 0.66⟩

/-- A feature and what it adds to the sum. -/
structure FeatureWeight where
  name : String
  weight : Float
  /-- The feature's value in code that reads well. -/
  target : Option Float
deriving BEq, Inhabited

/-- How well a unit reads. -/
inductive Band where
  | low
  | medium
  | high
deriving Repr, DecidableEq, Inhabited

namespace Band

/-- The band's name. -/
def name : Band → String
  | low => "low"
  | medium => "medium"
  | high => "high"

end Band

end Readability.Model

namespace Readability

/-- A model, and where it was read from. -/
structure Model where
  format : String
  version : Nat
  schema : String
  link : Model.Link
  intercept : Float
  range : Model.ScoreRange
  bands : Model.Bands
  features : List Model.FeatureWeight
  source : String
deriving BEq, Inhabited

end Readability

namespace Readability.Model

open Readability.Source (UnitError)

/-- What a report tells of the model. -/
structure Info where
  schema : String
  version : Nat
  link : String
  rangeMin : Float
  rangeMax : Float
  source : String
deriving BEq

/-- No model at all. -/
def Info.blank : Info := ⟨"", 0, "", 0, 0, ""⟩

/-- The format tag that every model document carries. -/
def formatTag : String := "readscope-model"

/-- The latest version of the format. -/
def latestVersion : Nat := 1

/-- Why a model makes no sense. -/
inductive Flaw where
  | format (found : String)
  | version (found : Nat)
  | blankSchema
  | noFeatures
  | intercept
  | range (min max : Float)
  | bands (low high : Float)
  | duplicateFeature (name : String)
  | weight (name : String)
  | target (name : String)

namespace Flaw

/-- The flaw in words. -/
def message : Flaw → String
  | format found => "unknown model format '" ++ found ++ "', expected '" ++ formatTag ++ "'"
  | version found => "unsupported model version " ++ toString found
  | blankSchema => "model schema id is empty"
  | noFeatures => "model declares no features"
  | intercept => "intercept is not finite"
  | range min max =>
    "invalid score range [" ++ Decimal.plain min ++ ", " ++ Decimal.plain max ++ "]"
  | bands low high =>
    "invalid band thresholds low=" ++ Decimal.plain low ++ " high=" ++ Decimal.plain high
  | duplicateFeature name => "duplicate feature '" ++ name ++ "'"
  | weight name => "weight of '" ++ name ++ "' is not finite"
  | target name => "target of '" ++ name ++ "' is not finite"

end Flaw

/-- Whether a number is a share of something. -/
def isShare (x : Float) : Bool :=
  (0 : Float) ≤ x && x ≤ 1

/-- Checks the features in order; `seen` holds the names of those before. -/
def checkFeatures (seen : List String) : List FeatureWeight → Except Flaw Unit
  | [] => .ok ()
  | f :: rest =>
    if seen.contains f.name then .error (.duplicateFeature f.name)
    else if !Decimal.isFinite f.weight then .error (.weight f.name)
    else if f.target.any fun t => !Decimal.isFinite t then .error (.target f.name)
    else checkFeatures (f.name :: seen) rest

/-- Says what is wrong with a model, the first thing only. -/
def check (m : Model) : Except Flaw Unit :=
  if m.format != formatTag then .error (.format m.format)
  else if m.version == 0 || latestVersion < m.version then .error (.version m.version)
  else if Text.allBlank m.schema.toList then .error .blankSchema
  else if m.features.isEmpty then .error .noFeatures
  else if !Decimal.isFinite m.intercept then .error .intercept
  else if !(Decimal.isFinite m.range.min && Decimal.isFinite m.range.max
      && m.range.min < m.range.max) then
    .error (.range m.range.min m.range.max)
  else if !isShare m.bands.low || !isShare m.bands.high || m.bands.high < m.bands.low then
    .error (.bands m.bands.low m.bands.high)
  else checkFeatures [] m.features

/-- The names of the features, in order. -/
def featureNames (m : Model) : List String :=
  m.features.map (·.name)

/-- Why a model cannot rate what is measured, if so. -/
def schemaGap? (m : Model) (schema : String) (names : List String) : Option String :=
  if m.schema != schema then
    some ("model schema '" ++ m.schema ++ "' does not match extractor schema '" ++ schema ++ "'")
  else if m.featureNames != names then some "model feature list does not match the extractor"
  else none

/-- The first place where two lists of names differ: its number, and the names there. -/
def firstDifference (place : Nat) : List String → List String → Option (Nat × String × String)
  | expected :: es, actual :: as =>
    if expected != actual then some (place, expected, actual) else firstDifference (place + 1) es as
  | _, _ => none

/-- Checks that a vector has the model's features, each with a finite value. -/
def checkVector (m : Model) (v : Feature.Vector) : Except UnitError Unit :=
  if v.schema != m.schema then
    .error (.featureMismatch
      ("vector schema '" ++ v.schema ++ "' does not match model schema '" ++ m.schema ++ "'"))
  else if v.values.length != m.features.length || v.names.length != m.features.length then
    .error (.featureMismatch
      ("expected " ++ toString m.features.length ++ " features, got " ++ toString v.values.length))
  else
    match firstDifference 0 m.featureNames v.names with
    | some (place, expected, actual) =>
      .error (.featureMismatch
        ("feature " ++ toString place ++ " is '" ++ actual ++ "', model expects '" ++ expected
          ++ "'"))
    | none =>
      match v.pairs.find? fun pair => !Decimal.isFinite pair.2 with
      | some (name, _) => .error (.featureMismatch ("feature '" ++ name ++ "' is not finite"))
      | none => .ok ()

/-- The weighted sum of some values. -/
def weightedSum (m : Model) (values : List Float) : Float :=
  m.intercept + Number.total (List.zipWith (fun f x => f.weight * x) m.features values)

/-- The logistic curve. -/
def sigmoid (z : Float) : Float :=
  1 / (1 + Float.exp (-z))

/-- The score that a weighted sum stands for. -/
def scoreOfSum (m : Model) (z : Float) : Float :=
  let low := m.range.min
  let high := m.range.max
  let score := match m.link with
    | .logistic => low + (high - low) * sigmoid z
    | .invertedLogistic => low + (high - low) * (1 - sigmoid z)
    | .linear => Number.clamp low high z
  Number.clamp low high score

/-- The score of values that are known to be those of the model's features. -/
def scoreValues (m : Model) (values : List Float) : Except UnitError Float :=
  let z := m.weightedSum values
  if z.isNaN then .error (.featureMismatch "linear combination is NaN") else .ok (m.scoreOfSum z)

/-- The score of a vector. -/
def score (m : Model) (v : Feature.Vector) : Except UnitError Float := do
  m.checkVector v
  m.scoreValues v.values

/-- The band of a score. -/
def band (m : Model) (score : Float) : Band :=
  let share := (score - m.range.min) / (m.range.max - m.range.min)
  if share < m.bands.low then .low
  else if m.bands.high < share then .high
  else .medium

/-- What reports tell of the model. -/
def info (m : Model) : Info :=
  ⟨m.schema, m.version, m.link.name, m.range.min, m.range.max, m.source⟩

end Readability.Model
