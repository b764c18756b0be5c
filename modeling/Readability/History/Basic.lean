import Readability.FatalError
import Readability.Source.UnitError
import Readability.Source.UnitId
import Readability.Text.Lowercase
import Readability.Time.Instant

/-!
Histories: revisions one after the other, and the files each of them holds. A history is used
through four questions only, so that a rating run does not know where its files come from.
-/

namespace Readability.History

open Readability.Source (UnitError)

/-- What a revision did to a path. -/
inductive ChangeKind where
  | added
  | modified
  | deleted
  | renamed
deriving Repr, DecidableEq, Inhabited

namespace ChangeKind

/-- The kind's name. -/
def name : ChangeKind → String
  | added => "added"
  | modified => "modified"
  | deleted => "deleted"
  | renamed => "renamed"

end ChangeKind

/-- A path and what a revision did to it. -/
structure FileChange where
  path : String
  kind : ChangeKind
deriving Repr, DecidableEq, Inhabited

/-- A recorded state of all files. -/
structure Revision where
  id : String
  parents : List String
  timestamp : Time.Instant
  author : String
  /-- The first paragraph of the message, on one line. -/
  summary : String
  changes : List FileChange
deriving Repr, DecidableEq, Inhabited

namespace Revision

/-- The paths that a revision touched and did not delete. -/
def changedPaths (r : Revision) : List String :=
  (r.changes.filter fun change => change.kind != .deleted).map (·.path)

end Revision

/-- The order in which revisions are visited. -/
inductive WalkOrder where
  | newestFirst
  | chronological
deriving Repr, DecidableEq, Inhabited

namespace WalkOrder

/-- The order's name. -/
def name : WalkOrder → String
  | newestFirst => "newest_first"
  | chronological => "chronological"

/-- Reads a name, written in small or capital letters. -/
def parse (text : String) : Except String WalkOrder :=
  let small := Text.lowercase text
  if ["newest", "newest_first", "newest-first"].contains small then .ok newestFirst
  else if ["oldest", "chronological"].contains small then .ok chronological
  else .error ("unknown order '" ++ small ++ "', expected newest or oldest")

end WalkOrder

/-- Which revisions are visited. -/
structure RevisionRange where
  /-- Left out, and all before it. -/
  lower : Option String
  /-- The last one, the head when not given. -/
  upper : Option String
  /-- How many of the newest are kept. -/
  limit : Option Nat
deriving Repr, DecidableEq, Inhabited

namespace RevisionRange

/-- All revisions up to the head. -/
def whole : RevisionRange := ⟨none, none, none⟩

/-- The range as it is written. -/
def text (r : RevisionRange) : String :=
  let upper := r.upper.getD "HEAD"
  match r.lower with
  | some lower => lower ++ ".." ++ upper
  | none => upper

end RevisionRange

end Readability.History

namespace Readability

open History (Revision RevisionRange WalkOrder)
open Source (UnitError)

/-- A history as its readers see it. -/
structure History where
  /-- Where it is, for readers of reports. -/
  location : String
  /-- The revisions of a range. Each one may fail to load on its own. -/
  walk : RevisionRange → WalkOrder → Except FatalError (List (Except UnitError Revision))
  /-- The content of a path at a revision. -/
  read : String → String → Except UnitError ByteArray
  /-- The paths of all files at a revision. -/
  list : String → Except UnitError (List String)

end Readability

/-! Programs that open `Readability` may call the type by the name of its module. -/

namespace Readability.History

export Readability (History)

end Readability.History
