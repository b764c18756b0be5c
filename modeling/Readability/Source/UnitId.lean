/-!
Names of what is rated: a file at a revision, or one function in it.
-/

namespace Readability.Source

/-- Length of shortened revision ids, in characters. -/
def shortIdLength : Nat := 12

/-- The first characters of a revision id. -/
def shortId (id : String) : String :=
  String.ofList (id.toList.take shortIdLength)

/-- A function inside a file, its lines counted from one, both ends included. -/
structure ScopeSpan where
  name : String
  kind : String
  startLine : Nat
  endLine : Nat
deriving Repr, DecidableEq, Inhabited

/-- A file at a revision, or a function of it. -/
structure UnitId where
  path : String
  revision : String
  scope : Option ScopeSpan
deriving Repr, DecidableEq, Inhabited

namespace UnitId

/-- A whole file. -/
def file (path revision : String) : UnitId :=
  ⟨path, revision, none⟩

/-- A function of the file. -/
def withScope (id : UnitId) (span : ScopeSpan) : UnitId :=
  { id with scope := some span }

/-- The unit as messages name it. -/
def label (id : UnitId) : String :=
  let file := id.path ++ "@" ++ shortId id.revision
  match id.scope with
  | none => file
  | some span =>
    file ++ "::" ++ span.name ++ " (L" ++ toString span.startLine ++ "-" ++ toString span.endLine
      ++ ")"

end UnitId

end Readability.Source
