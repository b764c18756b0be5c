import Readability.Git.Object

/-!
Repositories: a log of commits, names for some of them, and what was lost from the store. An object
that is lost can still be pointed at; whoever needs it is told its id.
-/

namespace Readability.Git

/-- Why something cannot be had from a repository. -/
inductive GitError where
  /-- There is no object of that id, or none of that kind. -/
  | missing (reason : String)
  | refused (reason : String)
deriving Repr, DecidableEq

namespace GitError

/-- The fault in words. -/
def message : GitError → String
  | missing reason => reason
  | refused reason => reason

/-- The store holds nothing under that id. -/
def noMatch (id : String) : GitError :=
  .missing ("object not found - no match for id (" ++ id ++ ")")

/-- A text that has a null character in it cannot be handed on. -/
def nullCharacter : GitError :=
  .refused "data contained a nul byte that could not be represented as a string"

/-- A blank path is none. -/
def blankPath : GitError :=
  .refused "repo path should not be empty"

/-- A path starts at the root of a repository, which is not written. -/
def rootedPath (path : String) : GitError :=
  .refused ("repo path `" ++ path ++ "` should be relative")

/-- A path starts with a part that stands for another directory. -/
def dottedPath (path first : String) : GitError :=
  .refused ("repo path `" ++ path ++ "` should not start with `" ++ first ++ "`")

end GitError

/-- A repository. -/
structure Repository where
  /-- All commits, the latest one first; the parents of a commit stand behind it. -/
  log : List Commit
  /-- What full names such as `refs/heads/main` point to. -/
  references : List (String × String)
  /-- The reference that the head stands for. -/
  head : String
  /-- Files that no commit holds. -/
  loose : List ByteArray
  /-- The ids of objects that are gone. -/
  lost : List String

/-- A file that a commit sets, or deletes when there is none. -/
structure FileEdit where
  path : String
  file : Option (FileMode × ByteArray)

/-- What an edit does to a tree. -/
def FileEdit.apply (tree : Tree) (edit : FileEdit) : Tree :=
  let names := edit.path.splitOn "/"
  match edit.file with
  | some (mode, content) => tree.put (.file mode content) names
  | none => tree.erase names

/-- Characters that are cut from both ends of an author's name. -/
def isNameEdge (c : Char) : Bool :=
  c.toNat ≤ 32 || ".,:;<>\"\\'".contains c

/-- An author's name as it is recorded. -/
def authorName (name : String) : String :=
  String.ofList (((name.toList.dropWhile isNameEdge).reverse.dropWhile isNameEdge).reverse)

namespace Repository

/-- A repository without commits. -/
def empty : Repository := ⟨[], [], "refs/heads/main", [], []⟩

/-- The commit of that id, lost or not. -/
def commit? (r : Repository) (id : String) : Option Commit :=
  r.log.find? fun c => c.id == id

/-- The tree that a commit on top of some parents starts from: that of the first one. -/
def baseTree (r : Repository) (parents : List String) : Tree :=
  match parents.head?.bind r.commit? with
  | some parent => parent.tree
  | none => []

/-- Records a commit. Times are kept in 32 bits. -/
def record (r : Repository) (id : String) (parents : List String) (time : Int)
    (author message : String)
    (edits : List FileEdit) : Repository :=
  let tree := edits.foldl FileEdit.apply (r.baseTree parents)
  { r with log := ⟨id, parents, time % UInt32.size, authorName author, message, tree⟩ :: r.log }

/-- Points a reference to an object. -/
def refer (r : Repository) (name id : String) : Repository :=
  { r with references := (name, id) :: r.references.filter fun e => e.1 != name }

/-- Keeps a file that is in no commit. -/
def keep (r : Repository) (content : ByteArray) : Repository :=
  { r with loose := content :: r.loose }

/-- Drops an object from the store. -/
def lose (r : Repository) (id : String) : Repository :=
  { r with lost := id :: r.lost }

/-- Whether an object is gone. -/
def isLost (r : Repository) (id : String) : Bool :=
  r.lost.contains id

/-- Whether a file or directory is gone. -/
def hasLost (r : Repository) (node : Node) : Bool :=
  !r.lost.isEmpty && r.isLost node.id

/-- Opens a file or directory. -/
def open? (r : Repository) (node : Node) : Except GitError Unit :=
  if r.hasLost node then .error (.noMatch node.id) else .ok ()

mutual

/-- The file or directory of that id at or below a node. -/
def nodeWithId? (id : String) : Node → Option Node
  | .file mode content =>
    if (Node.file mode content).id == id then some (.file mode content) else none
  | .directory entries =>
    if (Node.directory entries).id == id then some (.directory entries) else entryWithId? id entries

/-- The file or directory of that id among some entries. -/
def entryWithId? (id : String) : List (String × Node) → Option Node
  | [] => none
  | (_, node) :: rest => (nodeWithId? id node).or (entryWithId? id rest)

end

/-- The object of an id, if the store has it. -/
def object? (r : Repository) (id : String) : Option Object :=
  if r.isLost id then none
  else
    match r.commit? id with
    | some c => some (.commit c)
    | none =>
      let nodes := r.log.map (Node.directory ·.tree) ++ r.loose.map (Node.file .plain)
      (nodes.findSome? (nodeWithId? id)).map .node

/-- The commit of an id. -/
def findCommit (r : Repository) (id : String) : Except GitError Commit :=
  match r.object? id with
  | some (.commit c) => .ok c
  | some (.node _) => .error (.missing "the requested type does not match the type in the ODB")
  | none => .error (.noMatch id)

/-- The tree of a commit. -/
def treeOf (r : Repository) (c : Commit) : Except GitError Tree := do
  r.open? (.directory c.tree)
  return c.tree

end Repository

end Readability.Git
