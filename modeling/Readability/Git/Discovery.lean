import Readability.Files.Disk
import Readability.Git.History

/-!
Where repositories are: a repository belongs to a directory and to all that is below it.
-/

namespace Readability.Git

open Readability.Files (Disk)

/-- A repository and the directory that it is kept for, as names from the root. -/
structure Site where
  place : List String
  repository : Repository

namespace Site

/-- The site's directory as a path. -/
def location (s : Site) : String :=
  "/" ++ String.join (s.place.map (· ++ "/"))

end Site

/-- The site that a path lies in; of sites within one another the innermost. -/
def discover (sites : List Site) (disk : Disk) (path : String) : Except GitError Site :=
  match disk.locate path with
  | .error e => .error (.missing ("failed to resolve path '" ++ path ++ "': " ++ e.reason))
  | .ok place =>
    if (disk.root.find? place).isNone then
      .error (.missing
        ("failed to resolve path '" ++ path ++ "': " ++ Files.FileFault.notFound.reason))
    else
      let around := sites.filter fun s => s.place.isPrefixOf place
      match around.mergeSort fun a b => a.place.length ≥ b.place.length with
      | site :: _ => .ok site
      | [] => .error (.missing ("could not find repository at '" ++ path ++ "'"))

/-- Opens the repository that a path lies in. -/
def openHistory (sites : List Site) (disk : Disk) (path : String) : Except FatalError History :=
  match discover sites disk path with
  | .ok site => .ok (site.repository.toHistory site.location)
  | .error e => .error (.repositoryUnavailable path e.message)

end Readability.Git
