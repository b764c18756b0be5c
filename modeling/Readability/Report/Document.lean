import Readability.Data.Decoder
import Readability.Data.Json.Parser
import Readability.Data.Json.Printer
import Readability.FatalError
import Readability.Model.Document
import Readability.Report.Basic
import Readability.Source.Document
import Readability.Time.Written

/-!
Reports as documents: written as JSON over several lines, and read back.
-/

namespace Readability

open Readability.Data

/-- An instant as a document value. -/
def Time.Instant.toValue (t : Time.Instant) : Value :=
  .text t.text

/-- Reads an instant. -/
def Time.Instant.decode : Decoder Time.Instant
  | _, .text s => (Time.Instant.parse s).mapError fun fault => .malformed fault.message
  | _, v => .error (.wrongType v "an RFC 3339 formatted date and time string")

namespace Feature.Vector

/-- The vector as a document value. -/
def toValue (v : Vector) : Value :=
  .record [("schema", .text v.schema), ("names", .texts v.names),
    ("values", .list (v.values.map .float))]

/-- Reads a vector. -/
def decode : Decoder Vector :=
  .record "struct FeatureVector"
    (.cons (.required "schema" .text) <| .cons (.required "names" (.list .text))
      <| .cons (.required "values" (.list .float)) .nil)
    fun (schema, names, values, ()) => ⟨schema, names, values⟩

end Feature.Vector

/-- Reads a band. -/
def Model.Band.decode : Decoder Model.Band :=
  .variant ([Model.Band.low, .medium, .high].map fun band => (band.name, band))

/-- Reads a run's state. -/
def Run.State.decode : Decoder Run.State :=
  .variant (Run.State.all.map fun state => (state.name, state))

namespace Report

namespace Record

/-- The record as a document value. -/
def toValue (r : Record) : Value :=
  .record [("unit", r.unit.toValue), ("language", .text r.language.tag),
    ("features", r.features.toValue), ("score", .float r.score), ("band", .text r.band.name),
    ("timestamp", r.timestamp.toValue)]

/-- Reads a record. -/
def decode : Decoder Record :=
  .record "struct ScoreRecord"
    (.cons (.required "unit" Source.UnitId.decode)
      <| .cons (.required "language" Source.Language.decode)
      <| .cons (.required "features" Feature.Vector.decode) <| .cons (.required "score" .float)
      <| .cons (.required "band" Model.Band.decode)
      <| .cons (.required "timestamp" Time.Instant.decode) .nil)
    fun (unit, language, features, score, band, timestamp, ()) =>
      ⟨unit, language, features, score, band, timestamp⟩

end Record

namespace Failure

/-- The failure as a document value. -/
def toValue (f : Failure) : Value :=
  .record [("unit", f.unit.toValue), ("error", f.error.toValue)]

/-- Reads a failure. -/
def decode : Decoder Failure :=
  .record "struct UnitFailure"
    (.cons (.required "unit" Source.UnitId.decode)
      <| .cons (.required "error" Source.UnitError.decode) .nil)
    fun (unit, error, ()) => ⟨unit, error⟩

end Failure

namespace BandCounts

/-- The counts as a document value. -/
def toValue (b : BandCounts) : Value :=
  .record [("low", .int b.low), ("medium", .int b.medium), ("high", .int b.high)]

/-- Reads counts. -/
def decode : Decoder BandCounts :=
  .record "struct BandCounts"
    (.cons (.required "low" .count) <| .cons (.required "medium" .count)
      <| .cons (.required "high" .count) .nil)
    fun (low, medium, high, ()) => ⟨low, medium, high⟩

end BandCounts

namespace Summary

/-- The summary as a document value. -/
def toValue (s : Summary) : Value :=
  let number := Value.ofOption .float
  .record [("count", .int s.count), ("failures", .int s.failures), ("mean", number s.mean),
    ("median", number s.median), ("min", number s.min), ("max", number s.max),
    ("trend_per_day", number s.trendPerDay), ("bands", s.bands.toValue)]

/-- Reads a summary. -/
def decode : Decoder Summary :=
  .record "struct Summary"
    (.cons (.required "count" .count) <| .cons (.required "failures" .count)
      <| .cons (.optional "mean" .float) <| .cons (.optional "median" .float)
      <| .cons (.optional "min" .float) <| .cons (.optional "max" .float)
      <| .cons (.optional "trend_per_day" .float)
      <| .cons (.required "bands" BandCounts.decode) .nil)
    fun (count, failures, mean, median, min, max, trend, bands, ()) =>
      ⟨count, failures, mean, median, min, max, trend, bands⟩

end Summary

namespace FileTrend

/-- The trend as a document value. -/
def toValue (t : FileTrend) : Value :=
  .record [("path", .text t.path), ("samples", .int t.samples),
    ("first_score", .float t.firstScore), ("last_score", .float t.lastScore),
    ("delta", .float t.delta)]

/-- Reads a trend. -/
def decode : Decoder FileTrend :=
  .record "struct FileTrend"
    (.cons (.required "path" .text) <| .cons (.required "samples" .count)
      <| .cons (.required "first_score" .float) <| .cons (.required "last_score" .float)
      <| .cons (.required "delta" .float) .nil)
    fun (path, samples, first, last, delta, ()) => ⟨path, samples, first, last, delta⟩

end FileTrend

namespace RevisionSummary

/-- The mean of a revision as a document value. -/
def toValue (s : RevisionSummary) : Value :=
  .record [("revision", .text s.revision), ("timestamp", s.timestamp.toValue),
    ("units", .int s.units), ("mean", .float s.mean), ("delta", Value.ofOption .float s.delta)]

/-- Reads the mean of a revision. -/
def decode : Decoder RevisionSummary :=
  .record "struct RevisionSummary"
    (.cons (.required "revision" .text) <| .cons (.required "timestamp" Time.Instant.decode)
      <| .cons (.required "units" .count) <| .cons (.required "mean" .float)
      <| .cons (.optional "delta" .float) .nil)
    fun (revision, timestamp, units, mean, delta, ()) => ⟨revision, timestamp, units, mean, delta⟩

end RevisionSummary

/-- The report as a document value. -/
def toValue (r : Report) : Value :=
  .record [("run_id", .text r.runId), ("generated_at", r.generatedAt.toValue),
    ("repository", .text r.repository), ("range", .text r.range), ("model", r.model.toValue),
    ("state", .text r.state.name), ("partial", .bool r.isPartial),
    ("revisions_walked", .int r.revisionsWalked), ("records", .list (r.records.map Record.toValue)),
    ("failures", .list (r.failures.map Failure.toValue)), ("summary", r.summary.toValue),
    ("files", .list (r.files.map FileTrend.toValue)),
    ("revisions", .list (r.revisions.map RevisionSummary.toValue))]

/-- Reads a report. -/
def decode : Decoder Report :=
  .record "struct Report"
    (.cons (.required "run_id" .text) <| .cons (.required "generated_at" Time.Instant.decode)
      <| .cons (.required "repository" .text) <| .cons (.required "range" .text)
      <| .cons (.required "model" Model.Info.decode) <| .cons (.required "state" Run.State.decode)
      <| .cons (.required "partial" .bool) <| .cons (.required "revisions_walked" .count)
      <| .cons (.required "records" (.list Record.decode))
      <| .cons (.required "failures" (.list Failure.decode))
      <| .cons (.required "summary" Summary.decode)
      <| .cons (.required "files" (.list FileTrend.decode))
      <| .cons (.required "revisions" (.list RevisionSummary.decode)) .nil)
    fun (runId, generatedAt, repository, range, model, state, isPartial, walked, records, failures,
        summary, files, revisions, ()) =>
      ⟨runId, generatedAt, repository, range, model, state, isPartial, walked, records, failures,
        summary, files, revisions⟩

/-- The report as a JSON text. -/
def toText (r : Report) : String :=
  Json.pretty r.toValue

/-- What is wrong with a text that is no report. -/
def refuse (reason : String) : FatalError :=
  .template ("not a readscope JSON report: " ++ reason)

/-- Reads a report from its JSON text. -/
def ofText (text : String) : Except FatalError Report := do
  let v ← (Json.read text).mapError fun fault => refuse fault.message
  (decode .json v).mapError fun fault => refuse (fault.message .json)

/-! Programs that open `Readability` may call the type by the name of its module. -/

export Readability (Report)

namespace Report

export Readability.Report (decode ofText)

end Report

end Report

end Readability
