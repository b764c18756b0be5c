import Readability.Render.Number
import Readability.Report.Basic
import Readability.Time.Written

/-!
Reports in Markdown, with tables. A bar inside a cell is escaped, so that it does not end the cell.
-/

namespace Readability.Render.Markdown

open Readability.Report (Failure FileTrend RevisionSummary Summary)

/-- How many failures are listed. -/
def maxFailures : Nat := 20

/-- The sign of a band. -/
def bandSign : Model.Band → String
  | .high => "🟢"
  | .medium => "🟡"
  | .low => "🔴"

/-- A character in a cell. -/
def cellChar (c : Char) : List Char :=
  if c == '|' then ['\\', '|'] else [c]

/-- A text in a cell. -/
def cell (s : String) : String :=
  String.ofList (s.toList.flatMap cellChar)

/-- A row of a table. -/
def row (cells : List String) : String :=
  "| " ++ " | ".intercalate cells ++ " |\n"

/-- A text as code. -/
def code (s : String) : String :=
  "`" ++ s ++ "`"

/-- What was rated. -/
def heading (r : Report) : String :=
  "# Readability Report\n\n**Repository:** " ++ code r.repository ++ " | **Range:** "
    ++ code r.range ++ " | **Revisions walked:** " ++ toString r.revisionsWalked ++ "\n"
    ++ (if r.isPartial then
        "\n> ⚠️ The run was cancelled before the walk finished; results are partial.\n"
      else "")

/-- The numbers about all scores. -/
def summary (s : Summary) : String :=
  let trend := match s.trendPerDay with
    | some slope => Decimal.signed 4 slope ++ " / day"
    | none => "-"
  let bands := bandSign .high ++ " " ++ toString s.bands.high ++ " · " ++ bandSign .medium ++ " "
    ++ toString s.bands.medium ++ " · " ++ bandSign .low ++ " " ++ toString s.bands.low
  "## Summary\n\n| Metric | Value |\n|--------|-------|\n"
    ++ row ["**Units scored**", toString s.count]
    ++ row ["**Failures**", toString s.failures]
    ++ row ["**Mean**", scoreOrDash s.mean]
    ++ row ["**Median**", scoreOrDash s.median]
    ++ row ["**Min / Max**", scoreOrDash s.min ++ " / " ++ scoreOrDash s.max]
    ++ row ["**Trend**", trend]
    ++ row ["**Bands**", bands]

/-- The cells of a revision. -/
def revisionCells (r : RevisionSummary) : List String :=
  [code (Source.shortId r.revision), r.timestamp.dateText, toString r.units, score r.mean,
    changeOrDash r.delta]

/-- The table of revisions. -/
def revisions (rs : List RevisionSummary) : String :=
  if rs.isEmpty then ""
  else
    "## Revisions\n\n| Revision | Date | Units | Mean | Delta |\n"
      ++ "|----------|------|-------|------|-------|\n"
      ++ String.join (rs.map fun r => row (revisionCells r)) ++ "\n"

/-- The cells of a file. -/
def fileCells (f : FileTrend) : List String :=
  [code (cell f.path), toString f.samples, score f.firstScore, score f.lastScore, change f.delta]

/-- The table of files. -/
def files (fs : List FileTrend) : String :=
  if fs.isEmpty then ""
  else
    "## Files\n\n| Unit | Samples | First | Last | Delta |\n"
      ++ "|------|---------|-------|------|-------|\n"
      ++ String.join (fs.map fun f => row (fileCells f)) ++ "\n"

/-- The units without a score. -/
def failures (fs : List Failure) : String :=
  if fs.isEmpty then ""
  else
    let hidden := fs.length - maxFailures
    "## Warnings (" ++ toString fs.length ++ ")\n\n"
      ++ String.join ((fs.take maxFailures).map fun f =>
        "- " ++ code f.unit.label ++ ": " ++ f.error.message ++ "\n")
      ++ (if hidden == 0 then "" else "\n*...and " ++ toString hidden ++ " more*\n")
      ++ "\n"

/-- Which model was used, and when. -/
def foot (r : Report) : String :=
  "---\n\n*Model " ++ code r.model.schema ++ " v" ++ toString r.model.version ++ " ("
    ++ r.model.link ++ ") · run " ++ code r.runId ++ " · generated " ++ r.generatedAt.footText
      ++ "*\n"

/-- The report in Markdown. -/
def render (r : Report) : String :=
  heading r ++ "\n" ++ summary r.summary ++ "\n" ++ revisions r.revisions ++ files r.files
    ++ failures r.failures ++ foot r

end Readability.Render.Markdown
