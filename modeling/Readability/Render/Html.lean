import Readability.Render.Number
import Readability.Report.Basic

/-!
Reports as a page of their own. Every text of the report is escaped, so that none of it can be read
as markup.
-/

namespace Readability.Render.Html

open Readability.Report (Failure Record Summary)

/-- Some characters with others in the place of one. -/
def replaceChar (old : Char) (new cs : List Char) : List Char :=
  cs.flatMap fun c => if c = old then new else [c]

/-- The characters that mean something on a page and what is written for them, in the order in which
they are replaced. The ampersand comes first, as it begins what is written for the others. -/
def references : List (Char × List Char) :=
  [('&', ['&', 'a', 'm', 'p', ';']),
    ('<', ['&', 'l', 't', ';']),
    ('>', ['&', 'g', 't', ';']),
    ('"', ['&', 'q', 'u', 'o', 't', ';']),
    ('\'', ['&', '#', '3', '9', ';'])]

/-- Some characters as text of a page: one replacement after the other. -/
def escapeChars (cs : List Char) : List Char :=
  references.foldl (fun cs reference => replaceChar reference.1 reference.2 cs) cs

/-- A text as text of a page. -/
def escape (s : String) : String :=
  String.ofList (escapeChars s.toList)

/-- The rules of the page's style, each a selector and its body. -/
def styleRules : List (String × String) :=
  [(".container",
      "max-width: 1100px; margin: 0 auto; background: white; border-radius: 12px; "
        ++ "overflow: hidden;"),
    (".header", "background: #334155; color: white; padding: 2rem;"),
    (".header .partial", "color: #fbbf24;"),
    (".content", "padding: 2rem;"),
    ("table", "border-collapse: collapse; width: 100%; margin-bottom: 2rem;"),
    ("th, td", "text-align: left; padding: 0.4rem 0.8rem; border-bottom: 1px solid #e2e8f0;"),
    (".band-high", "color: #16a34a;"),
    (".band-medium", "color: #ca8a04;"),
    (".band-low", "color: #dc2626;")]

/-- The page's style. -/
def styleSheet : String :=
  "\nbody \x7b\n"
    ++ "    font-family: -apple-system, BlinkMacSystemFont, 'Segoe UI', Roboto, sans-serif;\n"
    ++ "    line-height: 1.6;\n    color: #1e293b;\n    background: #f8fafc;\n"
    ++ "    padding: 2rem;\n\x7d\n"
    ++ String.join
      (styleRules.map fun (selector, body) => selector ++ " \x7b " ++ body ++ " \x7d\n")

/-- The page's head. -/
def head (r : Report) : String :=
  "<!DOCTYPE html>\n<html lang=\"en\">\n<head>\n    <meta charset=\"UTF-8\">\n"
    ++ "    <meta name=\"viewport\" content=\"width=device-width, initial-scale=1.0\">\n"
    ++ "    <title>Readability Report - " ++ escape r.repository ++ "</title>\n    <style>\n"
    ++ styleSheet ++ "\n    </style>\n</head>\n"

/-- What was rated. -/
def heading (r : Report) : String :=
  "<div class=\"header\">\n    <h1>Readability Report</h1>\n    <p class=\"timestamp\">"
    ++ escape r.repository ++ " · " ++ escape r.range ++ " · " ++ toString r.revisionsWalked
    ++ " revisions</p>"
    ++ (if r.isPartial then "\n    <p class=\"partial\">Run cancelled: results are partial</p>"
      else "")
    ++ "\n</div>\n"

/-- A row of the summary. -/
def summaryRow (title value : String) : String :=
  "    <tr><th>" ++ title ++ "</th><td>" ++ value ++ "</td></tr>\n"

/-- The numbers about all scores. -/
def summary (s : Summary) : String :=
  "<h2>Summary</h2>\n<table>\n"
    ++ summaryRow "Scored" (toString s.count)
    ++ summaryRow "Failures" (toString s.failures)
    ++ summaryRow "Mean" (scoreOrDash s.mean)
    ++ summaryRow "Median" (scoreOrDash s.median)
    ++ summaryRow "Min / Max" (scoreOrDash s.min ++ " / " ++ scoreOrDash s.max)
    ++ summaryRow "Trend per day" (changeOrDash s.trendPerDay)
    ++ "</table>\n"

/-- The unit of a record. -/
def unitText (id : Source.UnitId) : String :=
  match id.scope with
  | some span => id.path ++ "::" ++ span.name
  | none => id.path

/-- A row of the scores. -/
def recordRow (r : Record) : String :=
  "    <tr><td><code>" ++ escape (Source.shortId r.unit.revision) ++ "</code></td><td>"
    ++ escape (unitText r.unit) ++ "</td><td>" ++ r.language.name ++ "</td><td class=\"band-"
    ++ r.band.name ++ "\">" ++ score r.score ++ "</td></tr>\n"

/-- The scores. -/
def records (rs : List Record) : String :=
  if rs.isEmpty then "<p>No units were scored.</p>\n"
  else
    "<h2>Scores</h2>\n<table>\n"
      ++ "    <tr><th>Revision</th><th>Unit</th><th>Language</th><th>Score</th></tr>\n"
      ++ String.join (rs.map recordRow) ++ "</table>\n"

/-- The units without a score. -/
def failures (fs : List Failure) : String :=
  if fs.isEmpty then ""
  else
    "<h2>Warnings (" ++ toString fs.length ++ ")</h2>\n<ul>\n"
      ++ String.join (fs.map fun f =>
        "    <li><code>" ++ escape f.unit.label ++ "</code> " ++ escape f.error.message
          ++ "</li>\n")
      ++ "</ul>\n"

/-- The report as a page. -/
def render (r : Report) : String :=
  head r ++ "<body>\n<div class=\"container\">\n" ++ heading r ++ "<div class=\"content\">\n"
    ++ summary r.summary ++ records r.records ++ failures r.failures
    ++ "</div>\n</div>\n</body>\n</html>\n"

end Readability.Render.Html
