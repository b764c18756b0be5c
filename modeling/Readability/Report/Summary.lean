import Readability.Report.Trend

/-!
Numbers about all scores of a report. Mean, median and extremes are taken from the sorted scores, so
that they do not hang on the order of the records.
-/

namespace Readability.Report

/-- The scores in ascending order. -/
def sortedScores (records : List Record) : List Float :=
  (records.map (·.score)).mergeSort Number.leTotal

/-- The middle of sorted scores: the middle one, or half the sum of the middle two. -/
def median? (sorted : List Float) : Option Float :=
  let n := sorted.length
  if n % 2 == 1 then sorted[n / 2]?
  else
    match sorted[n / 2 - 1]?, sorted[n / 2]? with
    | some below, some above => some ((below + above) / 2)
    | _, _ => none

/-- The mean of some scores. -/
def mean? (sorted : List Float) : Option Float :=
  if sorted.isEmpty then none else some (Number.total sorted / sorted.length.toFloat)

/-- How many records lie in each band. -/
def bandCounts (records : List Record) : BandCounts where
  low := records.countP fun r => r.band == .low
  medium := records.countP fun r => r.band == .medium
  high := records.countP fun r => r.band == .high

/-- The summary of some records and a count of failures. -/
def summarize (records : List Record) (failures : Nat) : Summary :=
  let sorted := sortedScores records
  { count := sorted.length
    failures := failures
    mean := mean? sorted
    median := median? sorted
    min := sorted.head?
    max := sorted.getLast?
    trendPerDay := trend records
    bands := bandCounts records }

end Readability.Report
