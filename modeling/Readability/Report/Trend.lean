import Readability.Number.Double
import Readability.Report.Basic

/-!
Trends: the slope of the scores against time, the change of each unit from its first to its last
score, and the mean of each revision with its change against the one before.

The slope is computed over any numbers with the four operations, so that what holds of it exactly
can be said over the rational numbers.
-/

namespace Readability.Report

open Readability.Time (Instant)

/-- Seconds of a day. -/
def secondsPerDay : Nat := 86400

/-- The least-squares slope through some points; none when all lie over one place. -/
def slope {α : Type} [Add α] [Sub α] [Mul α] [Div α] [Neg α] [OfNat α 0] [BEq α] (ofInt : Int → α)
    (points : List (α × α)) : Option α :=
  let n := ofInt points.length
  let meanX := Number.total (points.map (·.1)) / n
  let meanY := Number.total (points.map (·.2)) / n
  let spread := Number.total (points.map fun p => (p.1 - meanX) * (p.1 - meanX))
  if spread == 0 then none
  else some (Number.total (points.map fun p => (p.1 - meanX) * (p.2 - meanY)) / spread)

/-- Days since the first of some samples, and the samples. -/
def sampleDays {α : Type} [Div α] (ofInt : Int → α) : List (Instant × α) → List (α × α)
  | [] => []
  | (start, y) :: rest =>
    ((start, y) :: rest).map fun sample =>
      (ofInt (sample.1.secondsSince start) / ofInt secondsPerDay, sample.2)

/-- Change per day of some samples; none when they all belong to one time. -/
def slopePerDay {α : Type} [Add α] [Sub α] [Mul α] [Div α] [Neg α] [OfNat α 0] [BEq α]
    (ofInt : Int → α) (samples : List (Instant × α)) : Option α :=
  if samples.isEmpty then none else slope ofInt (sampleDays ofInt samples)

/-- Change of the score per day. -/
def trend (records : List Record) : Option Float :=
  slopePerDay Float.ofInt (records.map fun r => (r.timestamp, r.score))

namespace Record

/-- The name of the function, blank for a file. -/
def scopeName (r : Record) : String :=
  match r.unit.scope with
  | some span => span.name
  | none => ""

/-- The line on which the function starts, zero for a file. -/
def scopeLine (r : Record) : Nat :=
  match r.unit.scope with
  | some span => span.startLine
  | none => 0

/-- Whether two records of a revision go by the same name. -/
def isNamesake (a b : Record) : Bool :=
  a.unit.revision == b.unit.revision && a.unit.path == b.unit.path && a.scopeName == b.scopeName

/-- The name under which a unit is followed over the revisions. Functions of one name in a file are
told apart by their place among them. -/
def trendKey (r : Record) (occurrence : Nat) : String :=
  match r.unit.scope with
  | some span =>
    if 1 < occurrence then r.unit.path ++ "::" ++ span.name ++ "#" ++ toString occurrence
    else r.unit.path ++ "::" ++ span.name
  | none => r.unit.path

end Record

/-- Records with the names they are followed under; `before` holds those already named. -/
def keyedFrom (before : List Record) : List Record → List (String × Float)
  | [] => []
  | r :: rest =>
    (r.trendKey (before.countP r.isNamesake + 1), r.score) :: keyedFrom (r :: before) rest

/-- The change of the unit that goes by a name, over scores in order of time. -/
def fileTrend (keyed : List (String × Float)) (key : String) : FileTrend :=
  let scores := (keyed.filter fun k => k.1 == key).map (·.2)
  let first := scores.headD 0
  let last := scores.getLastD 0
  ⟨key, scores.length, first, last, if scores.length ≤ 1 then 0 else last - first⟩

/-- The change of each unit, by name, over records in order of time. -/
def fileTrends (chronological : List Record) : List FileTrend :=
  let keyed := keyedFrom [] chronological
  let keys := (keyed.map (·.1)).eraseDups.mergeSort (fun a b => a ≤ b)
  keys.map (fileTrend keyed)

/-- The mean of a revision's scores, the first one apart. -/
def meanFrom (first : Float) (rest : List Float) : Float :=
  if rest.isEmpty then first
  else rest.foldl (· + ·) first / (rest.length + 1).toFloat

/-- The mean of the records of one revision. -/
def revisionSummary? : List Record → Option RevisionSummary
  | [] => none
  | r :: rest =>
    some ⟨r.unit.revision, r.timestamp, rest.length + 1, meanFrom r.score (rest.map (·.score)),
      none⟩

/-- Means with the changes against the one before. -/
def withDeltas : List RevisionSummary → List RevisionSummary
  | [] => []
  | first :: rest =>
    first ::
      List.zipWith (fun now before => { now with delta := some (now.mean - before.mean) }) rest
      (first :: rest)

/-- The mean of each revision with its change, over records in order of time. -/
def revisionSummaries (chronological : List Record) : List RevisionSummary :=
  withDeltas ((chronological.splitBy fun a b => a.unit.revision == b.unit.revision).filterMap
    revisionSummary?)

end Readability.Report
