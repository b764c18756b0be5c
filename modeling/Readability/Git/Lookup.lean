import Readability.Git.Repository

/-!
What is in a tree: the entry that a path leads to, and all entries of all directories. A path is
judged before it is looked up, and is then followed part by part.
-/

namespace Readability.Git

/-- Why a path is not looked up at all, if so. Only its first part is judged: dots farther inside
are names like any other. -/
def pathFault? (path : String) : Option GitError :=
  if path == "" then some .blankPath
  else
    let first := (path.splitOn "/").headD ""
    if first == "" then some (.rootedPath path)
    else if first == "." || first == ".." then some (.dottedPath path first)
    else if path.contains '\x00' then some .nullCharacter
    else none

/-- An entry of a directory, and the directory's path with a slash behind it. -/
structure Visit where
  directory : String
  name : String
  node : Node

namespace Repository

/-- What some names lead to in a tree. Nothing is found below a file, nor where a name is blank; one
blank name may stand behind that of a directory. -/
def nodeAt (r : Repository) : List String → Tree → Except GitError (Option Node)
  | [], _ => .ok none
  | [name], tree => .ok (if name == "" then none else tree.find? name)
  | name :: rest, tree =>
    if name == "" then .ok none
    else
      match tree.find? name with
      | some (.directory entries) =>
        if rest == [""] then .ok (some (.directory entries))
        else do
          r.open? (.directory entries)
          r.nodeAt rest entries
      | _ => .ok none

/-- What a path leads to in a tree. -/
def findPath (r : Repository) (tree : Tree) (path : String) : Except GitError (Option Node) :=
  match pathFault? path with
  | some fault => .error fault
  | none => r.nodeAt (path.splitOn "/") tree

mutual

/-- The entries below a node. All directories have to be there. -/
def visitsBelow (r : Repository) (path : String) : Node → Except GitError (List Visit)
  | .file .. => .ok []
  | .directory entries => do
    r.open? (.directory entries)
    r.visitsIn (path ++ "/") entries

/-- Some entries of a directory, each with those below it behind it. -/
def visitsIn (r : Repository) (directory : String) :
    List (String × Node) → Except GitError (List Visit)
  | [] => .ok []
  | (name, node) :: rest => do
    let below ← r.visitsBelow (directory ++ name) node
    return ⟨directory, name, node⟩ :: below ++ (← r.visitsIn directory rest)

end

end Repository

end Readability.Git
