import Readability.Command.Settings
import Readability.Data.Json.Parser

/-!
What a command finds around it, described in a document: files by their paths, the commits of a
repository, and the syntax trees of texts. A field that is missing, or is not of its kind, counts as
not given.

A file's content is a text, or its bytes in hexadecimal digits under the name `hex`; a path that
ends in a slash is an empty directory. A commit lists the paths that it sets, with their content and
perhaps a mode, or deletes, with `null`. A tree is a table of its kinds and its nodes in preorder.
The id and the time of a run are given as well.
-/

namespace Readability.Command.Description

open Readability.Data
open Readability.Files (Disk Entry)
open Readability.Source (Language NodeInfo Parser Role Tree)

/-- The value of a field. -/
def field (v : Value) (name : String) : Value :=
  (v.get? name).getD .null

/-- A text. -/
def text? : Value → Option String
  | .text s => some s
  | _ => none

/-- A text, or none at all. -/
def text (v : Value) : String :=
  (text? v).getD ""

/-- The items of a list. -/
def items : Value → List Value
  | .list vs => vs
  | _ => []

/-- The entries of a record. -/
def entries : Value → List (String × Value)
  | .record es => es
  | _ => []

/-- Whether a field is set. -/
def isSet (v : Value) (name : String) : Bool :=
  match field v name with
  | .bool b => b
  | _ => false

/-- A whole number. -/
def int? : Value → Option Int
  | .int n => some n
  | _ => none

/-- A count. -/
def count (v : Value) : Nat :=
  ((int? v).getD 0).toNat

/-- Bytes from their hexadecimal digits. -/
def bytesOfHex : List Char → List UInt8
  | a :: b :: rest =>
    UInt8.ofNat ((Json.hexDigit? a).getD 0 * 16 + (Json.hexDigit? b).getD 0) :: bytesOfHex rest
  | _ => []

/-- The content of a file. -/
def content : Value → ByteArray
  | .text s => s.toUTF8
  | v => ⟨(bytesOfHex (text (field v "hex")).toList).toArray⟩

/-- When a file was written that nothing is said about. -/
def usualTime : Int := 1700000000

/-- Puts files below a directory. -/
def putFiles (directory : List String) (times : Value) (files : Value) (root : Entry) : Entry :=
  (entries files).foldl (fun root (path, v) =>
    let place := directory ++ (path.splitOn "/").filter (· != "")
    if path.endsWith "/" then root.put ((root.find? place).getD .empty) place
    else root.put (.file (content v) ((int? (field times path)).getD usualTime)) place) root

/-- The mode of a file. -/
def mode : List Value → Git.FileMode
  | [.text "exec"] => .executable
  | [.text "link"] => .link
  | _ => .plain

/-- A path that a commit sets or deletes. -/
def fileEdit (v : Value) : Git.FileEdit :=
  match items v with
  | path :: .null :: _ => ⟨text path, none⟩
  | path :: c :: rest => ⟨text path, some (mode rest, content c)⟩
  | _ => ⟨"", none⟩

/-- Records a commit. `idOf` gives the id of a commit's name. -/
def recordCommit (idOf : String → String) (r : Git.Repository) (v : Value) : Git.Repository :=
  r.record (idOf (text (field v "id"))) ((items (field v "parents")).map fun p => idOf (text p))
    ((int? (field v "time")).getD 0) ((text? (field v "author")).getD "Dev")
    (text (field v "message")) ((items (field v "files")).map fileEdit)

/-- Points a reference to a commit, or to a file of its own. -/
def recordReference (idOf : String → String) (r : Git.Repository) (entry : String × Value) :
    Git.Repository :=
  match entry.2 with
  | .text name => r.refer entry.1 (idOf name)
  | v =>
    let bytes := content (field v "blob")
    (r.keep bytes).refer entry.1 (Git.Node.file .plain bytes).id

/-- The file or directory where some names lead. -/
def nodeIn : List String → Git.Tree → Option Git.Node
  | [], _ => none
  | [name], tree => tree.find? name
  | name :: rest, tree => nodeIn rest (tree.below name)

/-- The id of an object that is named by a commit and a path in it. -/
def objectId? (idOf : String → String) (r : Git.Repository) (v : Value) : Option String :=
  match items v with
  | [name, .null] => some (idOf (text name))
  | [name, path] => (r.commit? (idOf (text name))).bind fun c =>
    if text path == "" then some (Git.Node.directory c.tree).id
    else (nodeIn ((text path).splitOn "/") c.tree).map Git.Node.id
  | _ => none

/-- The main branch points to the last commit, unless it is yet to be born. -/
def referMain (v : Value) (r : Git.Repository) : Git.Repository :=
  match r.log with
  | c :: _ => if isSet v "unborn" then r else r.refer "refs/heads/main" c.id
  | [] => r

/-- A repository. -/
def repository (idOf : String → String) (v : Value) : Git.Repository :=
  let r := referMain v ((items (field v "commits")).foldl (recordCommit idOf) .empty)
  let r := (entries (field v "refs")).foldl (recordReference idOf) r
  let r := { r with head := (text? (field v "head")).getD r.head }
  ((items (field v "lose")).filterMap (objectId? idOf r)).foldl Git.Repository.lose r

/-- A node of a tree and the number of its children. -/
def node (kinds : List String) (v : Value) : NodeInfo × Nat :=
  match (items v).map count with
  | [kind, flags, start, stop, children, role] =>
    let role : Role := if role == 1 then .name else if role == 2 then .declarator else .none
    (⟨kinds.getD kind "", flags % 2 == 1, flags / 2 % 2 == 1, flags / 4 % 2 == 1, start, stop,
      role⟩, children)
  | _ => (default, 0)

/-- A tree. -/
def tree (v : Value) : Tree :=
  let kinds := (items (field v "kinds")).map text
  (Tree.ofPreorder ((items (field v "nodes")).map (node kinds))).getD default

/-- A parser that knows the trees of some texts. -/
def parser (trees : Value) : Parser :=
  let known := (items trees).map fun t =>
    (text (field t "language"), text (field t "text"), Thunk.mk fun _ => tree (field t "tree"))
  fun language source =>
    (known.find? fun k => k.1 == language.name && k.2.1 == source).map fun k => k.2.2.get

/-- The names that a path leads along from the root. -/
def placeOf (path : String) : List String :=
  (path.splitOn "/").filter (· != "")

/-- The files around a command. A repository with a work tree keeps itself in a directory of
that. -/
def disk (v : Value) (work user : List String) : Disk :=
  let git := field v "git"
  let root := (Entry.empty.put .empty work).put .empty user
  let root := match git with
    | .record _ =>
      if isSet git "bare" then root
      else root.put (.file "ref: refs/heads/main\n".toUTF8 usualTime) (work ++ [".git", "HEAD"])
    | _ => root
  let root := putFiles work (field v "mtimes") (field v "files") root
  ⟨putFiles user .null (field v "user_files") root, work⟩

/-- What a command finds around it: the working directory is at `work`, the user's settings are at
`user`. -/
def surroundings (idOf : String → String) (work user : String) (v : Value) : Surroundings where
  disk := disk v (placeOf work) (placeOf user)
  sites := match field v "git" with
    | .record es => [⟨placeOf work, repository idOf (.record es)⟩]
    | _ => []
  userDir := user
  modelVariable := text? (field v "env_model")
  styling := if isSet v "color" then .colored else .plain
  parser := parser (field v "trees")
  runId := text (field v "run_id")
  now := .ofUnix ((int? (field v "now")).getD 0) 0

end Readability.Command.Description
