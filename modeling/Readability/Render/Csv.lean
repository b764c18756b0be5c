import Readability.Decimal.Fixed
import Readability.Report.Basic
import Readability.Time.Written

/-!
Reports as comma-separated values: a header, one row for each record, one for each failure. A field
with a comma, a quote or a line end in it stands in quotes, its own quotes written twice.
-/

namespace Readability.Render.Csv

open Readability.Report (Failure Record)

/-- The names of the columns. -/
def header : List String :=
  ["status", "revision", "path", "scope", "language", "score", "band", "timestamp", "error"]

/-- Whether a field has to stand in quotes. -/
def needsQuotes (field : List Char) : Bool :=
  field.any fun c => c == ',' || c == '"' || c == '\n' || c == '\r'

/-- A field's characters with each quote written twice. -/
def doubleQuotes : List Char → List Char
  | [] => []
  | c :: rest => if c == '"' then '"' :: '"' :: doubleQuotes rest else c :: doubleQuotes rest

/-- A field as it stands in a row. -/
def quote (field : String) : String :=
  if needsQuotes field.toList then String.ofList ('"' :: doubleQuotes field.toList ++ ['"'])
  else field

/-- A row with its line end. -/
def row (fields : List String) : String :=
  ",".intercalate (fields.map quote) ++ "\n"

/-- The name of the function a unit is narrowed to, blank for a file. -/
def scopeField (id : Source.UnitId) : String :=
  match id.scope with
  | some span => span.name
  | none => ""

/-- The fields of a record. -/
def recordFields (r : Record) : List String :=
  ["ok", r.unit.revision, r.unit.path, scopeField r.unit, r.language.name, Decimal.fixed 6 r.score,
    r.band.name, r.timestamp.offsetText, ""]

/-- The fields of a failure. -/
def failureFields (f : Failure) : List String :=
  [f.error.kind, f.unit.revision, f.unit.path, scopeField f.unit, "", "", "", "", f.error.message]

/-- The report as comma-separated values. -/
def render (r : Report) : String :=
  String.join ((header :: r.records.map recordFields ++ r.failures.map failureFields).map row)

end Readability.Render.Csv
