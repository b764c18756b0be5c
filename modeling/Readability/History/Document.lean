import Readability.Data.Value
import Readability.History.Basic
import Readability.Time.Written

/-!
Revisions as document values.
-/

namespace Readability.History

open Readability.Data

namespace Revision

/-- The revision as entries of a record. -/
def toEntries (r : Revision) : List (String × Value) :=
  [("id", .text r.id), ("parents", .texts r.parents), ("timestamp", .text r.timestamp.text),
    ("author", .text r.author), ("summary", .text r.summary),
    ("changes", .list (r.changes.map fun change =>
      .record [("path", .text change.path), ("kind", .text change.kind.name)]))]

/-- The revision as a document value. -/
def toValue (r : Revision) : Value :=
  .record r.toEntries

end Revision

end Readability.History
