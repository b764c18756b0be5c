import Readability.Source.Path
import Readability.Text.Utf8

/-!
A tree of files and directories, and the directory from which relative paths are followed. Faults
are the ones that a file system tells: a part of the path is missing, or is a file where a directory
is due, or the reverse.
-/

namespace Readability.Files

/-- Why a path does not give what is asked for. -/
inductive FileFault where
  | notFound
  | notDirectory
  | isDirectory
  /-- The file's bytes are no text. -/
  | notText
deriving Repr, DecidableEq

namespace FileFault

/-- What is wrong. -/
def reason : FileFault → String
  | notFound => "No such file or directory"
  | notDirectory => "Not a directory"
  | isDirectory => "Is a directory"
  | notText => "stream did not contain valid UTF-8"

/-- The system's number of the fault, if it is one of the system's. -/
def code? : FileFault → Option Nat
  | notFound => some 2
  | notDirectory => some 20
  | isDirectory => some 21
  | notText => none

/-- The fault in words. -/
def message (fault : FileFault) : String :=
  match fault.code? with
  | some code => fault.reason ++ " (os error " ++ toString code ++ ")"
  | none => fault.reason

end FileFault

/-- A file, or a directory with its entries by name. -/
inductive Entry where
  /-- Content, and seconds from the start of 1970 to when it was written last. -/
  | file (content : ByteArray) (modified : Int)
  | directory (entries : List (String × Entry))
deriving Inhabited

namespace Entry

/-- An empty directory. -/
def empty : Entry := .directory []

/-- The entry of that name. -/
def child? (name : String) : Entry → Option Entry
  | .file .. => none
  | .directory entries => (entries.find? fun e => e.1 == name).map (·.2)

/-- The entry that some names lead to, one directory after the other. -/
def find? (e : Entry) : List String → Option Entry
  | [] => some e
  | name :: rest => (e.child? name).bind fun child => child.find? rest

/-- Whether this is a directory. -/
def isDirectory : Entry → Bool
  | .file .. => false
  | .directory _ => true

/-- The names in a directory. -/
def names : Entry → List String
  | .file .. => []
  | .directory entries => entries.map (·.1)

/-- A directory with an entry put under a name, in place of the one that was there. -/
def withChild (e : Entry) (name : String) (child : Entry) : Entry :=
  match e with
  | .file content modified => .file content modified
  | .directory entries =>
    if entries.any fun e => e.1 == name then
      .directory (entries.map fun e => if e.1 == name then (name, child) else e)
    else .directory (entries ++ [(name, child)])

/-- Puts an entry where some names lead, directories on the way made when they are missing. -/
def put (e : Entry) (new : Entry) : List String → Entry
  | [] => new
  | name :: rest => e.withChild name (((e.child? name).getD empty).put new rest)

end Entry

/-- A tree of files and the directory one works in. -/
structure Disk where
  root : Entry
  workDir : List String

namespace Disk

/-- Follows the parts of a path from a directory; every part but the last has to be a directory. -/
def follow (d : Disk) (here : List String) : List String → Except FileFault (List String)
  | [] => .ok here
  | part :: rest =>
    match d.root.find? here with
    | none => .error .notFound
    | some (.file ..) => .error .notDirectory
    | some (.directory _) =>
      let next :=
        if part == "." then here else if part == ".." then here.dropLast else here ++ [part]
      d.follow next rest

/-- Where a path leads, as names from the root. -/
def locate (d : Disk) (path : String) : Except FileFault (List String) :=
  if path == "" then .error .notFound
  else
    d.follow (if Source.Path.isAbsolute path then [] else d.workDir)
      ((path.splitOn "/").filter fun part => part != "")

/-- What is at a path. -/
def entry (d : Disk) (path : String) : Except FileFault Entry := do
  let place ← d.locate path
  match d.root.find? place with
  | none => throw .notFound
  | some (.file content modified) =>
    if path.endsWith "/" || path.endsWith "/." then throw .notDirectory
    else return .file content modified
  | some e => return e

/-- Whether there is something at a path. -/
def holds (d : Disk) (path : String) : Bool :=
  (d.entry path).isOk

/-- Whether there is a file at a path. -/
def isFile (d : Disk) (path : String) : Bool :=
  match d.entry path with
  | .ok e => !e.isDirectory
  | .error _ => false

/-- Whether there is a directory at a path. -/
def isDirectory (d : Disk) (path : String) : Bool :=
  match d.entry path with
  | .ok e => e.isDirectory
  | .error _ => false

/-- The bytes of a file and when it was written. -/
def readWithTime (d : Disk) (path : String) : Except FileFault (ByteArray × Int) := do
  match ← d.entry path with
  | .file content modified => return (content, modified)
  | .directory _ => throw .isDirectory

/-- The bytes of a file. -/
def read (d : Disk) (path : String) : Except FileFault ByteArray :=
  (d.readWithTime path).map (·.1)

/-- The text of a file. -/
def readText (d : Disk) (path : String) : Except FileFault String := do
  let bytes ← d.read path
  match Text.decodeUtf8 bytes with
  | .ok text => return text
  | .error _ => throw .notText

/-- The names in a directory. -/
def list (d : Disk) (path : String) : Except FileFault (List String) := do
  match ← d.entry path with
  | .file .. => throw .notDirectory
  | .directory entries => return entries.map (·.1)

/-- Writes a file; the directory that is to hold it has to be there. -/
def write (d : Disk) (path : String) (content : ByteArray) (modified : Int) :
    Except FileFault Disk := do
  let place ← d.locate path
  match d.root.find? place with
  | some (.directory _) => throw .isDirectory
  | _ =>
    if path.endsWith "/" then throw .isDirectory
    else return { d with root := d.root.put (.file content modified) place }

end Disk

end Readability.Files
