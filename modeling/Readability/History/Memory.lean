import Readability.History.Basic

/-!
Histories that are given snapshot by snapshot: a straight line of revisions, each with all its
files. A commit names the paths that it sets or deletes; all others stay as they were.
-/

namespace Readability.History

open Readability.Source (UnitError)

/-- Files by path, in the order of the paths. -/
abbrev FileTable := List (String × ByteArray)

namespace FileTable

/-- The content of a path. -/
def find? (files : FileTable) (path : String) : Option ByteArray :=
  (List.find? (fun f => f.1 == path) files).map (·.2)

/-- Sets the content of a path. -/
def set (files : FileTable) (path : String) (content : ByteArray) : FileTable :=
  match files with
  | [] => [(path, content)]
  | file :: rest =>
    if file.1 == path then (path, content) :: rest
    else if path < file.1 then (path, content) :: file :: rest
    else file :: set rest path content

/-- Takes a path out. -/
def erase (files : FileTable) (path : String) : FileTable :=
  List.filter (fun f => f.1 != path) files

/-- The paths. -/
def paths (files : FileTable) : List String :=
  List.map (·.1) files

end FileTable

/-- A revision and its files. -/
structure Snapshot where
  revision : Revision
  files : FileTable

/-- A path that a commit sets, or deletes when there is no content. -/
structure Edit where
  path : String
  content : Option ByteArray

/-- What an edit does to some files, and how it is recorded. Deleting what is not there is no
change. -/
def applyEdit (state : FileTable × List FileChange) (edit : Edit) : FileTable × List FileChange :=
  let (files, changes) := state
  match edit.content with
  | some content =>
    let kind := if (files.find? edit.path).isSome then ChangeKind.modified else .added
    (files.set edit.path content, changes ++ [⟨edit.path, kind⟩])
  | none =>
    if (files.find? edit.path).isSome then
      (files.erase edit.path, changes ++ [⟨edit.path, .deleted⟩])
    else (files, changes)

/-- A history held in memory, the oldest snapshot first. -/
structure Memory where
  snapshots : List Snapshot
  /-- Revisions and paths that cannot be read. -/
  broken : List (String × String)

namespace Memory

/-- A history without revisions. -/
def empty : Memory := ⟨[], []⟩

/-- The latest snapshot. -/
def latest? (h : Memory) : Option Snapshot :=
  h.snapshots.getLast?

/-- The files of the latest snapshot, none at the start. -/
def latestFiles (h : Memory) : FileTable :=
  match h.latest? with
  | some snapshot => snapshot.files
  | none => []

/-- Puts a revision on top of the latest one. -/
def commit (h : Memory) (id : String) (timestamp : Time.Instant) (edits : List Edit) : Memory :=
  let parents := h.latest?.toList.map (·.revision.id)
  let (files, changes) := edits.foldl applyEdit (h.latestFiles, [])
  { h with snapshots := h.snapshots ++ [⟨⟨id, parents, timestamp, "memory", id, changes⟩, files⟩] }

/-- Makes a path of a revision unreadable. -/
def breakFile (h : Memory) (revision path : String) : Memory :=
  { h with broken := (revision, path) :: h.broken }

/-- The place of a revision, counted from the oldest one. -/
def indexOf (h : Memory) (id : String) : Except FatalError Nat :=
  match h.snapshots.findIdx? fun s => s.revision.id == id with
  | some index => .ok index
  | none => .error (.invalidRange ("cannot resolve '" ++ id ++ "'"))

/-- The place of the last revision of a range. -/
def upperIndex (h : Memory) (upper : Option String) : Except FatalError Nat :=
  if upper.getD "HEAD" == "HEAD" then
    if h.snapshots.isEmpty then .error (.invalidRange "history is empty")
    else .ok (h.snapshots.length - 1)
  else h.indexOf (upper.getD "HEAD")

/-- How many revisions lie before a range. -/
def lowerCount (h : Memory) : Option String → Except FatalError Nat
  | none => .ok 0
  | some id => (h.indexOf id).map (· + 1)

/-- The revisions of a range. The limit keeps the newest ones in both orders. -/
def walk (h : Memory) (range : RevisionRange) (order : WalkOrder) :
    Except FatalError (List Revision) := do
  let last ← h.upperIndex range.upper
  let first ← h.lowerCount range.lower
  let newest := ((h.snapshots.take (last + 1)).drop first).reverse.map (·.revision)
  let kept := match range.limit with
    | some limit => newest.take limit
    | none => newest
  return match order with
    | .newestFirst => kept
    | .chronological => kept.reverse

/-- The snapshot of a revision. -/
def snapshot (h : Memory) (revision : String) : Except UnitError Snapshot :=
  match h.snapshots.find? fun s => s.revision.id == revision with
  | some snapshot => .ok snapshot
  | none => .error (.repository ("unknown revision " ++ revision))

/-- The content of a path at a revision. -/
def read (h : Memory) (revision path : String) : Except UnitError ByteArray := do
  if h.broken.contains (revision, path) then
    throw (.repository ("object for " ++ path ++ " at " ++ revision ++ " is corrupt"))
  let snapshot ← h.snapshot revision
  match snapshot.files.find? path with
  | some content => return content
  | none => throw (.notFound path revision)

/-- The paths at a revision. -/
def list (h : Memory) (revision : String) : Except UnitError (List String) := do
  let snapshot ← h.snapshot revision
  return snapshot.files.paths

/-- The history as its readers see it. -/
def toHistory (h : Memory) : History where
  location := "<memory>"
  walk range order := (h.walk range order).map fun revisions => revisions.map .ok
  read := h.read
  list := h.list

end Memory

end Readability.History
