import Readability.Git.Queue
import Readability.Git.Repository

/-!
The commits of a range: all that the upper end leads to and the lower end does not, children before
their parents. Among the commits whose children are all written the latest one is next.
-/

namespace Readability.Git

/-- The commits of a log that some ids lead to. The log has parents behind their children, so that
one pass finds them all. -/
def reachable (wanted : List String) : List Commit → List Commit
  | [] => []
  | c :: older =>
    if wanted.contains c.id then c :: reachable (c.parents ++ wanted) older
    else reachable wanted older

/-- The parents of a commit that wait for no other child, those named twice at their last place. -/
def released (waiting : List Commit) : List String → List Commit
  | [] => []
  | id :: ids =>
    if ids.contains id || waiting.any fun c => c.parents.contains id then released waiting ids
    else (waiting.find? fun c => c.id == id).toList ++ released waiting ids

/-- Takes one commit after the other from the queue and puts the parents in that have become free.
`waiting` are the commits that are not written, and no more than `count` of them are. -/
def arrange : Nat → Queue → List Commit → List Commit
  | 0, _, _ => []
  | count + 1, queue, waiting =>
    match queue.take? with
    | none => []
    | some (c, rest) =>
      let waiting := waiting.filter fun other => other.id != c.id
      c :: arrange count ((released waiting c.parents).foldl Queue.insert rest) waiting

/-- Some commits in the order of the walk. -/
def topological (commits : List Commit) : List Commit :=
  let tips := commits.filter fun c => !commits.any fun child => child.parents.contains c.id
  arrange commits.length (tips.foldl Queue.insert .empty) commits

namespace Repository

/-- The first commit that has to be read for a walk and is gone. -/
def firstLost? (r : Repository) (commits : List Commit) : Option String :=
  commits.findSome? fun c => c.parents.find? r.isLost

/-- The commits of a range, the latest one first. -/
def commitsBetween (r : Repository) (lower : Option Commit) (upper : Commit) :
    Except GitError (List Commit) :=
  let hidden := (lower.map (·.id)).toList
  match r.firstLost? (reachable (upper.id :: hidden) r.log) with
  | some id => .error (.noMatch id)
  | none =>
    let left := (reachable hidden r.log).map (·.id)
    .ok (topological ((reachable [upper.id] r.log).filter fun c => !left.contains c.id))

end Repository

end Readability.Git
