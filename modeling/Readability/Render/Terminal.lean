import Readability.Render.Number
import Readability.Render.Style
import Readability.Number.Double
import Readability.Report.Basic
import Readability.Time.Written

/-!
Reports for terminals: the summary, and the first rows of each table. Files are listed from the
worst score up.
-/

namespace Readability.Render.Terminal

open Readability.Report (Failure FileTrend RevisionSummary Summary)

/-- How many rows of a table are shown. -/
def maxRows : Nat := 15

/-- The style of a band. -/
def bandStyle : Model.Band → Style
  | .low => .red
  | .medium => .yellow
  | .high => .green

/-- A count of a band in its style. -/
def bandCount (styling : Styling) (band : Model.Band) (n : Nat) : String :=
  styling.paint [bandStyle band] (band.name ++ " " ++ toString n)

/-- What was rated. -/
def heading (styling : Styling) (r : Report) : String :=
  "\n" ++ styling.paint [.bold] "Readability Report" ++ "\n"
    ++ styling.paint [.dim] (String.ofList (List.replicate 38 '─')) ++ "\n"
    ++ "Repository: " ++ r.repository ++ "  Range: " ++ r.range ++ "  Revisions: "
    ++ toString r.revisionsWalked ++ "\n"
    ++ "Model: " ++ r.model.schema ++ " v" ++ toString r.model.version ++ " (" ++ r.model.link
    ++ ") from " ++ r.model.source ++ "\n\n"

/-- The numbers about all scores. -/
def summary (styling : Styling) (s : Summary) : String :=
  styling.paint [.bold] "SUMMARY" ++ "\n"
    ++ "  Scored: " ++ toString s.count ++ "  Failed: " ++ toString s.failures
    ++ "  Mean: " ++ scoreOrDash s.mean ++ "  Median: " ++ scoreOrDash s.median
    ++ "  Min: " ++ scoreOrDash s.min ++ "  Max: " ++ scoreOrDash s.max ++ "\n"
    ++ "  Bands: " ++ bandCount styling .high s.bands.high ++ " "
    ++ bandCount styling .medium s.bands.medium ++ " " ++ bandCount styling .low s.bands.low
    ++ (match s.trendPerDay with
      | some slope => "  Trend: " ++ Decimal.signed 4 slope ++ "/day"
      | none => "")
    ++ "\n\n"

/-- A row of the table of revisions. -/
def revisionRow (styling : Styling) (r : RevisionSummary) : String :=
  "  " ++ styling.paint [.cyan] (Source.shortId r.revision) ++ "  " ++ r.timestamp.dateText
    ++ "  units " ++ padded 4 r.units ++ "  mean " ++ score r.mean ++ "  "
    ++ styling.paint [.dim] (changeOrDash r.delta) ++ "\n"

/-- The table of revisions. -/
def revisions (styling : Styling) (rs : List RevisionSummary) : String :=
  if rs.isEmpty then ""
  else
    let hidden := rs.length - maxRows
    styling.paint [.bold] "REVISIONS" ++ "\n"
      ++ String.join ((rs.take maxRows).map (revisionRow styling))
      ++ (if hidden == 0 then ""
        else "  " ++ styling.paint [.dim] ("... " ++ toString hidden ++ " more") ++ "\n")
      ++ "\n"

/-- A row of the table of files. -/
def fileRow (styling : Styling) (f : FileTrend) : String :=
  "  " ++ score f.lastScore ++ "  " ++ styling.paint [.dim] (change f.delta) ++ "  " ++ f.path
    ++ "\n"

/-- The table of files. -/
def files (styling : Styling) (fs : List FileTrend) : String :=
  if fs.isEmpty then ""
  else
    let sorted := fs.mergeSort fun f g => Number.leTotal f.lastScore g.lastScore
    styling.paint [.bold] "FILES" ++ "\n"
      ++ String.join ((sorted.take maxRows).map (fileRow styling))
      ++ "\n"

/-- The units without a score. -/
def failures (styling : Styling) (fs : List Failure) : String :=
  if fs.isEmpty then ""
  else
    styling.paint [.yellow, .bold] "WARNINGS" ++ " (" ++ toString fs.length ++ ")\n"
      ++ String.join ((fs.take maxRows).map fun f =>
        "  " ++ f.unit.label ++ "  " ++ styling.paint [.dim] f.error.message ++ "\n")
      ++ "\n"

/-- The report for a terminal. -/
def render (styling : Styling) (r : Report) : String :=
  heading styling r ++ summary styling r.summary ++ revisions styling r.revisions
    ++ files styling r.files ++ failures styling r.failures
    ++ (if r.isPartial then
        styling.paint [.yellow] "Run was cancelled; results are partial." ++ "\n"
      else "")

end Readability.Render.Terminal
