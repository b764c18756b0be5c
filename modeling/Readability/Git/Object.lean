import Readability.Git.Sha1

/-!
What a repository stores: files, directories that name them, and commits. A file or directory is
known by the digest of its content, so that equal ones are one object. A directory keeps its entries
in the order of their names, a directory's name taken with the slash behind it; that way files stand
in the order of their full paths.
-/

namespace Readability.Git

/-- What kind of file an entry is. -/
inductive FileMode where
  | plain
  | executable
  /-- A link; its content is the path that it leads to. -/
  | link
deriving Repr, DecidableEq, Inhabited

namespace FileMode

/-- The mode as directories record it. -/
def digits : FileMode → String
  | plain => "100644"
  | executable => "100755"
  | link => "120000"

end FileMode

/-- A file, or a directory with its entries by name. -/
inductive Node where
  | file (mode : FileMode) (content : ByteArray)
  | directory (entries : List (String × Node))
deriving Inhabited

/-- The entries of a directory. -/
abbrev Tree := List (String × Node)

/-- An object's bytes behind its kind and its size. -/
def framed (kind : String) (body : List UInt8) : List UInt8 :=
  (kind ++ " " ++ toString body.length).toUTF8.toList ++ 0 :: body

mutual

/-- The digest of a file or directory. -/
def Node.digest : Node → List UInt8
  | .file _ content => Sha1.digest (framed "blob" content.toList)
  | .directory entries => Sha1.digest (framed "tree" (Tree.body entries))

/-- A directory's bytes: for each entry its mode, name and digest. -/
def Tree.body : List (String × Node) → List UInt8
  | [] => []
  | (name, node) :: rest =>
    let mode := match node with
      | .file mode _ => mode.digits
      | .directory _ => "40000"
    (mode ++ " " ++ name).toUTF8.toList ++ 0 :: (node.digest ++ Tree.body rest)

end

/-- The id of a file or directory. -/
def Node.id (node : Node) : String :=
  Sha1.hex node.digest

namespace Tree

/-- The entry of that name. -/
def find? (tree : Tree) (name : String) : Option Node :=
  (List.find? (fun e => e.1 == name) tree).map (·.2)

/-- What an entry is sorted by. -/
def sortName (entry : String × Node) : String :=
  match entry.2 with
  | .file .. => entry.1
  | .directory _ => entry.1 ++ "/"

/-- Puts an entry before the first one that sorts behind it. -/
def place (entry : String × Node) : Tree → Tree
  | [] => [entry]
  | other :: rest =>
    if sortName entry < sortName other then entry :: other :: rest else other :: place entry rest

/-- Takes out the entry of that name. -/
def without (tree : Tree) (name : String) : Tree :=
  List.filter (fun e => e.1 != name) tree

/-- Sets an entry, in place of one of the same name. -/
def withEntry (tree : Tree) (name : String) (node : Node) : Tree :=
  place (name, node) (tree.without name)

/-- The entries of the directory of that name; none when there is no such directory. -/
def below (tree : Tree) (name : String) : Tree :=
  match tree.find? name with
  | some (.directory entries) => entries
  | _ => []

/-- Sets a file where some names lead; directories on the way are made. -/
def put (file : Node) : List String → Tree → Tree
  | [], tree => tree
  | [name], tree => tree.withEntry name file
  | name :: rest, tree => tree.withEntry name (.directory (put file rest (tree.below name)))

/-- Takes out the file where some names lead, and with it the directories that are left empty. -/
def erase : List String → Tree → Tree
  | [], tree => tree
  | [name], tree =>
    match tree.find? name with
    | some (.file ..) => tree.without name
    | _ => tree
  | name :: rest, tree =>
    match tree.find? name with
    | some (.directory entries) =>
      let kept := erase rest entries
      if kept.isEmpty then tree.without name else tree.withEntry name (.directory kept)
    | _ => tree

end Tree

/-- A commit: the tree of all files, and how it came to be. -/
structure Commit where
  id : String
  parents : List String
  /-- Seconds from the start of 1970. -/
  time : Int
  author : String
  message : String
  tree : Tree

/-- An object that an id may stand for. -/
inductive Object where
  | commit (c : Commit)
  | node (n : Node)

end Readability.Git
