import Readability.Git.Repository
import Readability.Git.Similarity

/-!
What changed from one tree to another: the paths on either side side by side, in the order of the
paths, and then deleted and added files of like content taken together as renamed ones.
-/

namespace Readability.Git

/-- A file of a tree. -/
structure StoredFile where
  path : String
  mode : FileMode
  content : ByteArray
deriving BEq

namespace Repository

mutual

/-- The files at or below a node, in the order of their paths. All directories have to be there. -/
def filesAt (r : Repository) (path : String) : Node → Except GitError (List StoredFile)
  | .file mode content => .ok [⟨path, mode, content⟩]
  | .directory entries => do
    r.open? (.directory entries)
    r.filesIn (path ++ "/") entries

/-- The files of some entries of a directory. -/
def filesIn (r : Repository) (directory : String) :
    List (String × Node) → Except GitError (List StoredFile)
  | [] => .ok []
  | (name, node) :: rest => do
    let files ← r.filesAt (directory ++ name) node
    return files ++ (← r.filesIn directory rest)

end

end Repository

/-- What became of a file. -/
inductive DeltaStatus where
  | unmodified
  | added
  | deleted
  | modified
  | renamed
  | copied
  | ignored
  | untracked
  | typeChanged
  | unreadable
  | conflicted
deriving Repr, DecidableEq

/-- What became of a file, with its paths on both sides. Where a side has no file, it has the path
of the other one. -/
structure Delta where
  status : DeltaStatus
  oldPath : String
  newPath : String
deriving Repr, DecidableEq

/-- A file that is not the same on both sides. -/
inductive Difference where
  | added (new : StoredFile)
  | deleted (old : StoredFile)
  | modified (path : String)
  | renamed (oldPath newPath : String)

namespace Difference

/-- The difference as it is told. -/
def delta : Difference → Delta
  | added new => ⟨.added, new.path, new.path⟩
  | deleted old => ⟨.deleted, old.path, old.path⟩
  | modified path => ⟨.modified, path, path⟩
  | renamed oldPath newPath => ⟨.renamed, oldPath, newPath⟩

/-- The path that the difference is sorted by. -/
def path (d : Difference) : String :=
  d.delta.newPath

/-- The place of the kind among differences of one path. -/
def rank : Difference → Nat
  | added _ => 1
  | deleted _ => 2
  | modified _ => 3
  | renamed .. => 4

/-- The order in which differences stand once some are renamed. -/
def notAfter (a b : Difference) : Bool :=
  a.path < b.path || (a.path == b.path && a.rank ≤ b.rank)

end Difference

/-- How a file differs from the one that was at its path. A link in place of a file, or the reverse,
is another file. -/
def differences (old new : StoredFile) : List Difference :=
  if old.mode == new.mode && old.content == new.content then []
  else if (old.mode == .link) == (new.mode == .link) then [.modified new.path]
  else [.deleted old, .added new]

/-- The differences of two lists of files in the order of their paths. -/
def compareFiles : List StoredFile → List StoredFile → List Difference
  | [], news => news.map .added
  | olds, [] => olds.map .deleted
  | old :: olds, new :: news =>
    if old.path < new.path then .deleted old :: compareFiles olds (new :: news)
    else if new.path < old.path then .added new :: compareFiles (old :: olds) news
    else differences old new ++ compareFiles olds news
termination_by olds news => olds.length + news.length

/-- A deleted file taken for an added one, by their places in the lists of either, and how alike
they are. -/
structure Pairing where
  source : Nat
  target : Nat
  score : Nat
deriving Repr, DecidableEq

/-- What is paired, and whether something was paired before and is not any more. -/
structure Matching where
  pairs : List Pairing
  disturbed : Bool

namespace Matching

/-- Pairs two files if they are more alike than either is to the one that it is paired with. -/
def offer (m : Matching) (new : Pairing) : Matching :=
  let rivals := m.pairs.filter fun p => p.source == new.source || p.target == new.target
  if new.score == 0 || rivals.any fun p => new.score ≤ p.score then m
  else
    ⟨new :: m.pairs.filter fun p => p.source != new.source && p.target != new.target,
      m.disturbed || !rivals.isEmpty⟩

/-- Offers all pairings, again and again until nothing is disturbed; each round settles the most
alike pairs that are left. -/
def settle (offers : List Pairing) : Nat → List Pairing → List Pairing
  | 0, pairs => pairs
  | rounds + 1, pairs =>
    let m := offers.foldl offer ⟨pairs, false⟩
    if m.disturbed then settle offers rounds m.pairs else m.pairs

end Matching

/-- From how many percent on two files are one renamed file. -/
def renameThreshold : Nat := 50

namespace Repository

/-- How alike two files are, if they can be compared. Equal ones are not opened. -/
def alike (r : Repository) (old new : StoredFile) : Except GitError (Option Nat) := do
  if old.content == new.content then return some 100
  r.open? (.file old.mode old.content)
  r.open? (.file new.mode new.content)
  if sizesApart old.content new.content then return none
  return some ((Signature.ofBytes old.content).similarity (Signature.ofBytes new.content))

/-- The pairings of one added file with all deleted ones. -/
def offersFor (r : Repository) (olds : List StoredFile) (new : StoredFile × Nat) :
    Except GitError (List Pairing) := do
  let scores ← olds.zipIdx.mapM fun old => do
    return (← r.alike old.1 new.1).map fun score => Pairing.mk old.2 new.2 score
  return scores.filterMap id

/-- Takes deleted and added files together as renamed ones. Links are left as they are. -/
def detectRenames (r : Repository) (all : List Difference) : Except GitError (List Difference) := do
  let olds := all.filterMap fun
    | .deleted old => if old.mode == .link then none else some old
    | _ => none
  let news := all.filterMap fun
    | .added new => if new.mode == .link then none else some new
    | _ => none
  let offers ← news.zipIdx.mapM (r.offersFor olds)
  let pairs := Matching.settle offers.flatten (olds.length + news.length + 1) []
  let good := pairs.filter fun p => p.score ≥ renameThreshold
  if good.isEmpty then return all
  let gone := good.filterMap fun p => olds[p.source]?
  let moved := good.filterMap fun p => do return (← olds[p.source]?, ← news[p.target]?)
  let kept := all.filterMap fun
    | .deleted old => if gone.contains old then none else some (.deleted old)
    | .added new =>
      match moved.find? fun pair => pair.2 == new with
      | some (old, _) => some (.renamed old.path new.path)
      | none => some (.added new)
    | other => some other
  return kept.mergeSort Difference.notAfter

/-- What became of the files of a tree, with the tree that came before it. -/
def compareTrees (r : Repository) (before tree : Tree) : Except GitError (List Delta) := do
  let olds ← r.filesIn "" before
  let news ← r.filesIn "" tree
  return (← r.detectRenames (compareFiles olds news)).map Difference.delta

end Repository

end Readability.Git
