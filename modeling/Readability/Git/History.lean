import Readability.Git.Library
import Readability.Git.Summary
import Readability.History.Basic

/-!
A repository as a history: revisions are commits with what they changed in their first parent's
tree, files are those of a commit's tree.
-/

namespace Readability.Git

open Readability.History (FileChange Revision RevisionRange WalkOrder)
open Readability.Source (UnitError)

/-- The fault as one of a unit. -/
def GitError.toUnitError (e : GitError) : UnitError :=
  .repository e.message

/-- What is recorded of a difference, if it is one. A file that is gone goes by its old path. -/
def Delta.change? (d : Delta) : Option FileChange :=
  match d.status with
  | .added | .copied => some ⟨d.newPath, .added⟩
  | .deleted => some ⟨d.oldPath, .deleted⟩
  | .renamed => some ⟨d.newPath, .renamed⟩
  | .modified | .typeChanged => some ⟨d.newPath, .modified⟩
  | .unmodified | .ignored | .untracked | .unreadable | .conflicted => none

/-- The path of a file that is visited. -/
def Visit.file? (v : Visit) : Option String :=
  match v.node with
  | .file .. => some (v.directory ++ v.name)
  | .directory _ => none

/-- Reads an id; one that is too short is filled up with zeros. -/
def readId (text : String) : Except GitError String :=
  if text == "" then .error (.refused "unable to parse OID - too short")
  else if text.utf8ByteSize > 40 then .error (.refused "unable to parse OID - too long")
  else
    let digits := text.toList.map Char.toLower
    if digits.all fun c => c.isDigit || ('a' ≤ c && c ≤ 'f') then
      .ok (String.ofList (digits ++ List.replicate (40 - digits.length) '0'))
    else .error (.refused "unable to parse OID - contains invalid characters")

/-- The commit of a revision's id. -/
def Repository.commitOf (r : Repository) (revision : String) : Except GitError Commit := do
  r.findCommit (← readId revision)

namespace Library

/-- The commit that a name stands for. -/
def resolve (lib : Library) (r : Repository) (spec : String) : Except FatalError Commit :=
  match lib.named r spec with
  | .ok (.commit c) => .ok c
  | .ok (.node n) =>
    .error (.invalidRange ("'" ++ spec ++ "' is not a commit: the git_object of id '" ++ n.id ++
      "' can not be successfully peeled into a commit (git_object_t=1)."))
  | .error e => .error (.invalidRange ("cannot resolve '" ++ spec ++ "': " ++ e.message))

/-- The commits that a walk visits. The limit keeps the latest ones in both orders. -/
def walk (lib : Library) (r : Repository) (range : RevisionRange) (order : WalkOrder) :
    Except FatalError (List Commit) := do
  let upper ← lib.resolve r (range.upper.getD "HEAD")
  let lower ← range.lower.mapM (lib.resolve r)
  if range.limit == some 0 then return []
  match lib.between r lower upper with
  | .error e => throw (.invalidRange e.message)
  | .ok commits =>
    let kept := match range.limit with
      | some limit => commits.take limit
      | none => commits
    return match order with
      | .newestFirst => kept
      | .chronological => kept.reverse

/-- What a commit changed in the tree of its first parent, or in an empty one when it has no
parent. -/
def changes (lib : Library) (r : Repository) (c : Commit) : Except GitError (List FileChange) := do
  let tree ← r.treeOf c
  let before ← match c.parents.head?.bind fun id => (r.findCommit id).toOption with
    | some parent => r.treeOf parent
    | none => pure []
  return (← lib.compare r before tree).filterMap Delta.change?

/-- The commit as a revision. -/
def toRevision (lib : Library) (r : Repository) (c : Commit) : Except GitError Revision := do
  let changes ← lib.changes r c
  return ⟨c.id, c.parents, .ofUnix c.time 0, c.author, summary c.message, changes⟩

/-- The content of a file in a commit, if there is such a file. -/
def content? (lib : Library) (r : Repository) (c : Commit) (path : String) :
    Except GitError (Option ByteArray) := do
  let tree ← r.treeOf c
  match ← lib.find r tree path with
  | some (.file mode content) =>
    r.open? (.file mode content)
    return some content
  | _ => return none

/-- The paths of the files of a commit. -/
def files (lib : Library) (r : Repository) (c : Commit) : Except GitError (List String) := do
  let tree ← r.treeOf c
  return (← lib.visit r tree).filterMap Visit.file?

/-- The content of a path at a revision. -/
def read (lib : Library) (r : Repository) (revision path : String) : Except UnitError ByteArray :=
  match do lib.content? r (← r.commitOf revision) path with
  | .ok (some content) => .ok content
  | .ok none => .error (.notFound path revision)
  | .error e => .error e.toUnitError

/-- The paths of all files at a revision. -/
def list (lib : Library) (r : Repository) (revision : String) : Except UnitError (List String) :=
  match do lib.files r (← r.commitOf revision) with
  | .ok paths => .ok paths
  | .error e => .error e.toUnitError

/-- The revisions of a range. -/
def revisions (lib : Library) (r : Repository) (range : RevisionRange) (order : WalkOrder) :
    Except FatalError (List (Except UnitError Revision)) := do
  let commits ← lib.walk r range order
  return commits.map fun c => (lib.toRevision r c).mapError GitError.toUnitError

/-- A repository as its readers see it through a library. -/
def history (lib : Library) (r : Repository) (location : String) : History where
  location
  walk := lib.revisions r
  read := lib.read r
  list := lib.list r

end Library

/-- The repository as its readers see it. -/
def Repository.toHistory (r : Repository) (location : String) : History :=
  Library.builtIn.history r location

end Readability.Git
