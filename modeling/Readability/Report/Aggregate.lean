import Readability.History.Basic
import Readability.Report.Summary

/-!
From the outcomes of a run to its report. Outcomes may arrive in any order: the records are sorted
by the place of their revision in the walk, then by path, then by line, and all numbers follow from
the sorted records.
-/

namespace Readability.Report

open Readability.History (Revision WalkOrder)

/-- What a run has to tell. -/
inductive Outcome where
  /-- A revision was read; `index` is its place in the walk. -/
  | revision (index : Nat) (revision : Revision)
  | scored (record : Record)
  | failed (failure : Failure)
deriving BEq

/-- What a report says about the run as a whole. -/
structure Meta where
  repository : String
  range : String
  model : Model.Info
  isPartial : Bool

/-- The outcomes of a run so far. -/
structure Aggregator where
  order : WalkOrder
  /-- Revisions and their places in the walk, the latest first. -/
  places : List (String × Nat)
  records : List Record
  failures : List Failure

namespace Aggregator

/-- No outcomes yet. -/
def start (order : WalkOrder) : Aggregator :=
  ⟨order, [], [], []⟩

/-- Takes in one more outcome. -/
def push (a : Aggregator) : Outcome → Aggregator
  | .revision index revision => { a with places := (revision.id, index) :: a.places }
  | .scored record => { a with records := a.records ++ [record] }
  | .failed failure => { a with failures := a.failures ++ [failure] }

/-- The outcomes of a whole run, taken in as they came. -/
def collect (order : WalkOrder) (outcomes : List Outcome) : Aggregator :=
  outcomes.foldl push (start order)

/-- How many revisions were read. -/
def revisionsWalked (a : Aggregator) : Nat :=
  (a.places.map (·.1)).eraseDups.length

/-- Units were tried, and the model took none of them. -/
def allMismatched (a : Aggregator) : Bool :=
  a.records.isEmpty && !a.failures.isEmpty && a.failures.all fun f => f.error.isMismatch

/-- The place of a revision in the walk. -/
def place? (a : Aggregator) (revision : String) : Option Nat :=
  (a.places.find? fun p => p.1 == revision).map (·.2)

/-- Behind all places of a walk. -/
def farPlace : Nat := UInt64.size - 1

/-- The place by which units are sorted; unknown revisions come last. -/
def sortPlace (a : Aggregator) (revision : String) : Nat :=
  (a.place? revision).getD farPlace

/-- The order of records: by revision, path and line. -/
def compareRecords (a : Aggregator) (r s : Record) : Ordering :=
  (compare (a.sortPlace r.unit.revision) (a.sortPlace s.unit.revision)).then
    ((compare r.unit.path s.unit.path).then (compare r.scopeLine s.scopeLine))

/-- The order of failures: by revision and path. -/
def compareFailures (a : Aggregator) (f g : Failure) : Ordering :=
  (compare (a.sortPlace f.unit.revision) (a.sortPlace g.unit.revision)).then
    (compare f.unit.path g.unit.path)

/-- The records in the order of the report. -/
def sortedRecords (a : Aggregator) : List Record :=
  a.records.mergeSort fun r s => (a.compareRecords r s).isLE

/-- The failures in the order of the report. -/
def sortedFailures (a : Aggregator) : List Failure :=
  a.failures.mergeSort fun f g => (a.compareFailures f g).isLE

/-- Sorted records, the oldest revision first. -/
def chronological (a : Aggregator) (sorted : List Record) : List Record :=
  match a.order with
  | .chronological => sorted
  | .newestFirst =>
    sorted.mergeSort fun r s =>
      (a.place? s.unit.revision).getD 0 ≤ (a.place? r.unit.revision).getD 0

/-- The means of the revisions in the order of the walk. -/
def walkedSummaries (a : Aggregator) (chronological : List Record) : List RevisionSummary :=
  match a.order with
  | .chronological => revisionSummaries chronological
  | .newestFirst => (revisionSummaries chronological).reverse

/-- The report on the outcomes, under a run's name and the time it is made. -/
def finish (a : Aggregator) (about : Meta) (runId : String) (now : Time.Instant) : Report :=
  let records := a.sortedRecords
  let failures := a.sortedFailures
  let chronological := a.chronological records
  { runId := runId
    generatedAt := now
    repository := about.repository
    range := about.range
    model := about.model
    state := .aggregating
    isPartial := about.isPartial
    revisionsWalked := a.revisionsWalked
    records := records
    failures := failures
    summary := summarize records failures.length
    files := fileTrends chronological
    revisions := a.walkedSummaries chronological }

end Aggregator

end Readability.Report
