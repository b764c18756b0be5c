import Readability.Git.Changes
import Readability.Git.Lookup
import Readability.Git.RevisionName
import Readability.Git.Walk

/-!
What readers of repositories leave to a library: names of revisions, walks over commits, trees side
by side, and what is in a tree. The readers go by the questions alone; `Library.builtIn` is one that
answers them, and the one that programs run with.
-/

namespace Readability.Git

/-- Answers to what can be asked about a repository. -/
structure Library where
  /-- The object that a text names. -/
  named : Repository → String → Except GitError Object
  /-- The commits that the second commit leads to and the first one does not, children before their
  parents, else the latest one first. -/
  between : Repository → Option Commit → Commit → Except GitError (List Commit)
  /-- What became of the files of the second tree since the first one, some of them renamed. -/
  compare : Repository → Tree → Tree → Except GitError (List Delta)
  /-- The entry that a path leads to in a tree. -/
  find : Repository → Tree → String → Except GitError (Option Node)
  /-- The entries of a tree and of all directories in it, each directory before what is in it. -/
  visit : Repository → Tree → Except GitError (List Visit)

/-- The library that programs run with. -/
def Library.builtIn : Library where
  named := Repository.revision
  between := Repository.commitsBetween
  compare := Repository.compareTrees
  find := Repository.findPath
  visit := fun r tree => r.visitsIn "" tree

end Readability.Git
