import Readability.Feature.Vector
import Readability.Model.Basic
import Readability.Run.State
import Readability.Source.Language
import Readability.Source.UnitError
import Readability.Source.UnitId
import Readability.Time.Instant

/-!
Reports: the scores of a run, the units that have none, and what follows from the scores.
-/

namespace Readability.Report

open Readability.Source (Language UnitError UnitId)
open Readability.Time (Instant)

/-- The score of one unit. -/
structure Record where
  unit : UnitId
  language : Language
  features : Feature.Vector
  score : Float
  band : Model.Band
  /-- When the revision was made, or the file last written. -/
  timestamp : Instant
deriving BEq, Inhabited

/-- A unit without a score, and why. -/
structure Failure where
  unit : UnitId
  error : UnitError
deriving BEq, DecidableEq, Inhabited

/-- How many scores lie in each band. -/
structure BandCounts where
  low : Nat
  medium : Nat
  high : Nat
deriving BEq, DecidableEq, Inhabited

/-- Numbers about all scores. -/
structure Summary where
  count : Nat
  failures : Nat
  mean : Option Float
  median : Option Float
  min : Option Float
  max : Option Float
  /-- Change of the score per day, by least squares. -/
  trendPerDay : Option Float
  bands : BandCounts
deriving BEq

/-- The scores of one unit over all revisions. -/
structure FileTrend where
  path : String
  samples : Nat
  firstScore : Float
  lastScore : Float
  delta : Float
deriving BEq

/-- The mean score of a revision. -/
structure RevisionSummary where
  revision : String
  timestamp : Instant
  units : Nat
  mean : Float
  /-- Change against the revision with scores before it in time. -/
  delta : Option Float
deriving BEq

end Readability.Report

namespace Readability

/-- What a run came to. -/
structure Report where
  runId : String
  generatedAt : Time.Instant
  repository : String
  range : String
  model : Model.Info
  state : Run.State
  /-- The run was stopped before its end. -/
  isPartial : Bool
  revisionsWalked : Nat
  records : List Report.Record
  failures : List Report.Failure
  summary : Report.Summary
  files : List Report.FileTrend
  revisions : List Report.RevisionSummary
deriving BEq

end Readability

namespace Readability.Report

/-- Whether some units have no score. -/
def hasWarnings (r : Report) : Bool :=
  !r.failures.isEmpty

end Readability.Report
